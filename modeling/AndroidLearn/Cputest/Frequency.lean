import AndroidLearn.Cputest.Loop

/-!
# The frequency that the test loop picks

From `thread_main` of `cputest.c`: every CPU has a table of its own, or that of CPU 0, and an
index into it. In the mode syncrandom the index of CPU 0 is given to the others. That the
tables are of one length is looked at only when the test starts, and `:settestmode:` sets the
mode at any time.

`picksInTable_run`: no index leads out of its table in a run in which, whenever the loop comes
to a CPU in the mode syncrandom, the table of that CPU is at least as long as that of CPU 0.
The invariant is that every index is within its own table (`State.InTable`); the only choice
that does not keep it by itself is the one that takes over the index of CPU 0. Where a table
is shorter, `exists_rand_beyond` has an answer of `rand` that leads out of it.
-/

namespace AndroidLearn.Cputest

open Run Conf

/-- The index is within the table. -/
def InTable (frequencies : List CString) (idx : Int) : Prop :=
  0 ≤ idx ∧ idx < frequencies.length

instance (frequencies : List CString) (idx : Int) : Decidable (InTable frequencies idx) :=
  inferInstanceAs (Decidable (_ ∧ _))

/-- The frequency that the action takes from a table is there. -/
def Action.Picks : Action → Prop
  | .setFrequency _ frequencies idx | .compare _ frequencies idx => InTable frequencies idx
  | .setOnline _ _ | .setGovernor _ => True

instance : DecidablePred Action.Picks
  | .setFrequency _ frequencies idx => inferInstanceAs (Decidable (InTable frequencies idx))
  | .compare _ frequencies idx => inferInstanceAs (Decidable (InTable frequencies idx))
  | .setOnline _ _ => inferInstanceAs (Decidable True)
  | .setGovernor _ => inferInstanceAs (Decidable True)

section Count

variable (cpuCount : Nat)

/-- The property at one event. -/
def PicksInTable (s : State) (e : Event) : Prop := ∀ a ∈ s.actions cpuCount e, a.Picks

instance (s : State) (e : Event) : Decidable (PicksInTable cpuCount s e) :=
  inferInstanceAs (Decidable (∀ a ∈ s.actions cpuCount e, a.Picks))

/-- The condition on one event: in the mode syncrandom the CPU that the loop is at has a table
that is at least as long as that of CPU 0. -/
def TablesFit (s : State) (e : Event) : Prop :=
  ∀ rand rand' loop i cpu0 cpu, e = .loop rand rand' → s.loop = some loop →
    loop.phase = .choose i → s.testmode = .syncRandom →
    loop.cpus.head? = some cpu0 → loop.cpus[i]? = some cpu →
    cpu0.frequencies.length ≤ cpu.frequencies.length

end Count

/-! ## One CPU -/

section Cpu

variable {cpu : Cpu} {i rand rand' : Nat}

/-- The index of the CPU is within its table. -/
def Cpu.InTable (cpu : Cpu) : Prop := Cputest.InTable cpu.frequencies cpu.frequencyIdx

/-- The index drawn at random is in a table that is not empty. -/
theorem inTable_randIdx {frequencies : List CString} (h : frequencies ≠ []) (rand : Nat) :
    InTable frequencies (randIdx rand frequencies) := by
  have hlt := Nat.mod_lt rand (List.length_pos_iff.mpr h)
  unfold InTable randIdx
  omega

/-- The first index is in a table that is not empty. -/
theorem inTable_firstIdx {frequencies : List CString} (h : frequencies ≠ []) (testmode : TestMode)
    (rand : Nat) : InTable frequencies (firstIdx testmode rand frequencies) := by
  have hpos := List.length_pos_iff.mpr h
  cases testmode with
  | random | cpuRandom => exact inTable_randIdx h rand
  | ascend | descend | syncRandom =>
    unfold InTable firstIdx
    dsimp only
    omega

/-- A CPU whose index is in its table has a table. -/
theorem Cpu.InTable.ne_nil (h : cpu.InTable) : cpu.frequencies ≠ [] := by
  intro hnil
  have hlt := h.2
  have hge := h.1
  rw [hnil, List.length_nil] at hlt
  omega

/-- A CPU whose index is in its table sets a frequency of it. -/
theorem Cpu.InTable.apply (h : cpu.InTable) (i : Nat) (mode : Char) : (cpu.apply i mode).Picks := by
  unfold Cpu.apply
  split
  · split
    · exact h
    · trivial
  · trivial

/-- Going online or offline keeps the index in the table. -/
theorem Cpu.InTable.chooseOnline (h : cpu.InTable) (i rand rand' : Nat) :
    (cpu.chooseOnline i rand rand').1.InTable ∧
      ∀ a ∈ (cpu.chooseOnline i rand rand').2, a.Picks := by
  have hrand := inTable_randIdx h.ne_nil rand'
  unfold Cpu.chooseOnline
  dsimp only
  split
  · split
    · exact ⟨hrand, by simp⟩
    · refine ⟨h, fun a ha => ?_⟩
      rw [List.mem_singleton.mp ha]
      exact h
  · split
    · refine ⟨hrand, fun a ha => ?_⟩
      rw [List.mem_singleton.mp ha]
      exact h
    · exact ⟨h, by simp⟩

/-- The next index is in the table, if that of CPU 0 is when it is taken over. -/
theorem Cpu.InTable.choose (h : cpu.InTable) (testmode : TestMode) (mode : Char) {idx0 : Int}
    (i rand rand' : Nat)
    (hsync : testmode = .syncRandom → 0 < i → Cputest.InTable cpu.frequencies idx0) :
    (cpu.choose testmode mode idx0 i rand rand').1.InTable ∧
      ∀ a ∈ (cpu.choose testmode mode idx0 i rand rand').2, a.Picks := by
  have hrand := inTable_randIdx h.ne_nil rand
  have hpos := List.length_pos_iff.mpr h.ne_nil
  have hge := h.1
  have hlt := h.2
  cases testmode with
  | descend =>
    refine ⟨?_, by simp [Cpu.choose]⟩
    unfold Cpu.InTable Cputest.InTable Cpu.choose
    dsimp only
    split <;> omega
  | ascend =>
    refine ⟨?_, by simp [Cpu.choose]⟩
    unfold Cpu.InTable Cputest.InTable Cpu.choose
    dsimp only
    split <;> omega
  | random => exact ⟨hrand, by simp [Cpu.choose]⟩
  | syncRandom =>
    refine ⟨?_, by simp [Cpu.choose]⟩
    unfold Cpu.choose
    dsimp only
    unfold Cpu.InTable
    dsimp only
    split
    next => exact hrand
    next hne => exact hsync rfl (Nat.pos_of_ne_zero hne)
  | cpuRandom =>
    unfold Cpu.choose
    dsimp only
    split
    -- the comparison is with the index from before the choice, which was in the table as well
    · exact h.chooseOnline i rand rand'
    · exact ⟨h, by simp⟩

end Cpu

/-! ## One event -/

section Step

variable {cpuCount : Nat} {s : State}

/-- Every CPU that is set up has its index in its table. -/
def State.InTable (s : State) : Prop := s.Each fun _ cpu => cpu.InTable

/-- A CPU begins with an index of its table. -/
theorem inTable_newCpu {loop : Loop} {i : Nat} (h : loop.Each fun _ cpu => cpu.InTable)
    (hlength : loop.cpus.length = i) (hgoes : ¬ (i = 0 ∧ loop.available.getD 0 [] = []))
    (rand : Nat) : (s.newCpu loop i rand).InTable := by
  have hsome : loop.frequencies i ≠ [] → (s.newCpu loop i rand).InTable :=
    fun hne => inTable_firstIdx hne s.testmode rand
  refine hsome ?_
  unfold Loop.frequencies
  dsimp only
  split
  next hown =>
    -- the table is that of CPU 0; if there is none yet this is CPU 0, which has one of its own
    cases hcpus : loop.cpus with
    | nil =>
      rw [hcpus, List.length_nil] at hlength
      exact absurd ⟨hlength.symm, hlength ▸ hown⟩ hgoes
    | cons cpu0 cpus =>
      have hcpu0 := h.cpus 0 cpu0 (by rw [hcpus]; rfl)
      simpa using hcpu0.ne_nil
  next hown => exact hown

/-- Every step keeps the indices in the tables, if these fit. -/
theorem State.InTable.step (h : s.InTable) {e : Event} (hfit : TablesFit s e) :
    (s.step cpuCount e).InTable ∧ PicksInTable cpuCount s e := by
  cases e with
  | loop rand rand' =>
    refine State.Each.loopStep h (fun loop i _ heach hlength hgoes =>
      inTable_newCpu heach hlength hgoes rand) (fun _ _ hcpu => hcpu) ?_
      (fun i cpu hcpu => hcpu.apply i _) (fun _ => trivial) fun _ => trivial
    intro loop i cpu0 cpu hloop hphase hcpu0 hcpu hin0 hin
    -- the index of CPU 0 is in the table of CPU 0, which is no longer than this one
    refine hin.choose s.testmode _ i rand rand' fun hmode _ => ⟨hin0.1, ?_⟩
    have hle := hfit rand rand' loop i cpu0 cpu rfl hloop hphase hmode hcpu0 hcpu
    exact lt_of_lt_of_le hin0.2 (Int.ofNat_le.mpr hle)
  | goCommand =>
    refine ⟨State.Each.command h nofun, fun a ha => ?_⟩
    unfold State.actions at ha
    dsimp only at ha
    split at ha
    next =>
      split at ha
      · rw [List.mem_singleton.mp ha]
        trivial
      · rw [List.mem_singleton.mp ha]
        trivial
    next => exact absurd ha List.not_mem_nil
  | setTestMode buffer | setCpuModes buffer | setCpuMode buffer | run available governors | stop =>
    exact ⟨State.Each.command h nofun, fun _ ha => absurd ha List.not_mem_nil⟩

/-- A table that is shorter than that of CPU 0: there is an answer of `rand` for which the index
of CPU 0 is beyond it. -/
theorem exists_rand_beyond {cpu0 cpu : Cpu} (hlt : cpu.frequencies.length < cpu0.frequencies.length)
    {i : Nat} (hi : i ≠ 0) (mode mode' : Char) (idx : Int) :
    ∃ rand, ¬ (cpu.choose .syncRandom mode'
      (cpu0.choose .syncRandom mode idx 0 rand 0).1.frequencyIdx i 0 0).1.InTable := by
  refine ⟨cpu.frequencies.length, fun hin => absurd hin.2 (Int.not_lt.mpr (Int.le_of_eq ?_))⟩
  simp [Cpu.choose, hi, randIdx, Nat.mod_eq_of_lt hlt]

end Step

/-! ## Every run -/

/-- The loop takes every frequency from within its table in a run in which no CPU that it comes
to in the mode syncrandom has a shorter table than CPU 0. -/
theorem picksInTable_run (cpuCount : Nat) (events : List Event)
    (hevents : AllSteps (State.step cpuCount) TablesFit (.init cpuCount) events) :
    AllSteps (State.step cpuCount) (PicksInTable cpuCount) (.init cpuCount) events :=
  AllSteps.imp (I := State.InTable) (fun _ _ h hfit => h.step hfit)
    nofun hevents

/-- The condition, evaluated. -/
def State.tablesFit (s : State) : Bool :=
  match s.loop with
  | none => true
  | some loop =>
    match loop.phase with
    | .choose i =>
      s.testmode ≠ .syncRandom ||
        match loop.cpus.head?, loop.cpus[i]? with
        | some cpu0, some cpu => cpu0.frequencies.length ≤ cpu.frequencies.length
        | _, _ => true
    | _ => true

/-- What the state looks like when the tables fit, as it can be computed. -/
theorem tablesFit_of_eval {s : State} (e : Event) (h : s.tablesFit = true) : TablesFit s e := by
  rintro rand rand' loop i cpu0 cpu - hloop hphase hmode hcpu0 hcpu
  unfold State.tablesFit at h
  simpa [hloop, hphase, hmode, hcpu0, hcpu] using h

/-- CPU 1 has a longer table than CPU 0, and the mode is set while the test runs. -/
theorem picksInTable_run_longer :
    AllSteps (State.step 2) (PicksInTable 2) (.init 2)
      (.run [[['1'], ['2']], [['3'], ['4'], ['5']]] true :: List.replicate 7 (.loop 0 0) ++
        .setTestMode "syncrandom".toList :: List.replicate 6 (.loop 1 0)) :=
  picksInTable_run 2 _
    (AllSteps.mono (P := TablesFit) (G := fun s _ => s.tablesFit = true)
      (fun _ => tablesFit_of_eval) (by decide))

/-- The mode is set when the test is running already, and the table of CPU 1 is the shorter
one. -/
theorem picksInTable_fails_unequal :
    ¬ AllSteps (State.step 2) (PicksInTable 2) (.init 2)
      (.run [[['1'], ['2']], [['3']]] true :: List.replicate 7 (.loop 0 0) ++
        .setTestMode "syncrandom".toList :: List.replicate 6 (.loop 1 0)) := by
  decide

end AndroidLearn.Cputest
