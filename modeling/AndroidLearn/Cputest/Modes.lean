import AndroidLearn.Cputest.Loop

/-!
# The modes of the CPUs

From `cputest.c`: `:setcpumodes:` copies what the client sends, and looks afterwards whether
CPU 0 is off; `:setcpumode:` stores a character for one CPU, looks afterwards what it is, and
knows no exception for CPU 0. Both write `cpumodes` without a lock, so that the loop may come
by in between, and what stands there then counts as recorded.

`modesKept_iff` says when every mode is valid after every step, that of CPU 0 is never that of
off, and CPU 0 is not switched off: exactly when the commands that are carried out send valid
modes only, `:setcpumodes:` one for every CPU, and none of them off for CPU 0. The characters
of one copy are one step; a copy that is half done has old modes and new ones, and is valid
when both are.
-/

namespace AndroidLearn.Cputest

open Run Conf

/-- One of `CPUMODE_*` -/
def validMode (mode : Char) : Prop :=
  mode = cpumodeOffline ∨ mode = cpumodeDynamic ∨ mode = cpumodeUser

instance (mode : Char) : Decidable (validMode mode) := inferInstanceAs (Decidable (_ ∨ _ ∨ _))

section Count

variable (cpuCount : Nat)

/-- The property at one event. -/
structure ModesKept (s : State) (e : Event) : Prop where
  valid : ∀ i < cpuCount, validMode ((s.step cpuCount e).mode i)
  on : (s.step cpuCount e).mode 0 ≠ cpumodeOffline
  /-- CPU 0 is not switched off -/
  online : .setOnline 0 false ∉ s.actions cpuCount e

/-- The condition on one event. -/
structure ModesSent (s : State) (e : Event) : Prop where
  /-- `:setcpumodes:` has a mode for every CPU -/
  all : ∀ buffer, e = .setCpuModes buffer → s.busy = false →
    cpuCount ≤ buffer.length ∧ ∀ mode ∈ buffer.take cpuCount, validMode mode
  /-- and not off for CPU 0 -/
  first : ∀ buffer, e = .setCpuModes buffer → s.busy = false → 0 < cpuCount →
    buffer.head? ≠ some cpumodeOffline
  /-- `:setcpumode:` has a mode for its CPU -/
  one : ∀ buffer, e = .setCpuMode buffer → s.busy = false → cpuOf cpuCount buffer < cpuCount →
    validMode (modeOf buffer)
  /-- and not off for CPU 0 -/
  zero : ∀ buffer, e = .setCpuMode buffer → s.busy = false → cpuOf cpuCount buffer = 0 →
    modeOf buffer ≠ cpumodeOffline

end Count

/-! ## The commands -/

section Commands

variable {cpuCount : Nat} {cpumodes : List Char} {buffer : CString}

/-- A mode that is stored is one of the three. -/
theorem validMode_modeSet (mode : Char) : validMode (modeSet mode) := by
  unfold modeSet
  split
  next h => exact h.imp_right .inl
  next => exact .inr (.inr rfl)

/-- Only the letter for offline stores offline. -/
theorem modeSet_eq_offline {mode : Char} :
    modeSet mode = cpumodeOffline ↔ mode = cpumodeOffline := by
  unfold modeSet
  split
  next => exact Iff.rfl
  next hne =>
    refine ⟨fun huser => absurd huser (by decide), fun hoffline => ?_⟩
    exact absurd (.inl hoffline) hne

/-- Storing the modes keeps their number. -/
theorem length_copyModes (hlength : cpumodes.length = cpuCount + 1) (buffer : CString) :
    (copyModes cpuCount cpumodes buffer).length = cpuCount + 1 := by
  unfold copyModes
  simp only [List.length_set, List.length_append, List.length_cons, List.length_drop,
    List.length_take, hlength]
  omega

/-- Each letter that was sent is stored, as long as there is a CPU for it. -/
theorem copyModes_of_lt {i : Nat} (hi : i < cpuCount) (hlt : i < buffer.length) :
    (copyModes cpuCount cpumodes buffer)[i]? = buffer[i]? := by
  unfold copyModes
  rw [List.getElem?_set_ne (by omega), List.getElem?_append_left (by simp; omega),
    List.getElem?_take_of_lt hi]

/-- The null byte behind a text that is too short. -/
theorem copyModes_length (hlt : buffer.length < cpuCount) :
    (copyModes cpuCount cpumodes buffer)[buffer.length]? = some '\x00' := by
  unfold copyModes
  rw [List.getElem?_set_ne (by omega), List.take_of_length_le (by omega),
    List.getElem?_append_right (by omega)]
  simp

/-- Every CPU has a valid mode exactly when the client has sent as many. -/
theorem copyModes_valid_iff (cpumodes : List Char) (buffer : CString) :
    (∀ i < cpuCount, validMode ((copyModes cpuCount cpumodes buffer).getD i '\x00')) ↔
      cpuCount ≤ buffer.length ∧ ∀ mode ∈ buffer.take cpuCount, validMode mode := by
  constructor
  · intro hvalid
    -- a shorter text would leave its null byte as the mode of a CPU
    have hle : cpuCount ≤ buffer.length := by
      by_contra hlt
      have hnull := hvalid buffer.length (by omega)
      rw [List.getD_eq_getElem?_getD, copyModes_length (by omega)] at hnull
      exact absurd hnull (by decide)
    refine ⟨hle, fun mode hmode => ?_⟩
    obtain ⟨i, hi⟩ := List.mem_iff_getElem?.mp hmode
    have hlt : i < cpuCount := by
      have hbound := (List.getElem?_eq_some_iff.mp hi).1
      rw [List.length_take] at hbound
      omega
    have hi' := hvalid i hlt
    rw [List.getElem?_take_of_lt hlt] at hi
    rwa [List.getD_eq_getElem?_getD, copyModes_of_lt hlt (by omega), hi] at hi'
  · rintro ⟨hle, hvalid⟩ i hi
    have hget := List.getElem?_eq_getElem (show i < buffer.length by omega)
    rw [List.getD_eq_getElem?_getD, copyModes_of_lt hi (by omega), hget]
    refine hvalid _ (List.mem_of_getElem? (i := i) ?_)
    rw [List.getElem?_take_of_lt hi, hget]
    rfl

/-- The copy has the mode of off for CPU 0 exactly when the client has sent it. -/
theorem copyModes_on_iff (cpumodes : List Char) (hle : cpuCount ≤ buffer.length) :
    (copyModes cpuCount cpumodes buffer).getD 0 '\x00' ≠ cpumodeOffline ↔
      (0 < cpuCount → buffer.head? ≠ some cpumodeOffline) := by
  rcases Nat.eq_zero_or_pos cpuCount with hzero | hpos
  · subst hzero
    refine iff_of_true ?_ fun h => absurd h (Nat.lt_irrefl 0)
    simp [copyModes, cpumodeOffline]
  · rw [List.getD_eq_getElem?_getD, copyModes_of_lt hpos (by omega), ← List.head?_eq_getElem?]
    cases buffer with
    | nil => exact absurd hle (by simp; omega)
    | cons mode modes => simp [hpos]

/-- CPU 0 is on, so there is nothing to correct. -/
theorem checkFirst_eq (h : cpumodes.getD 0 '\x00' ≠ cpumodeOffline) :
    checkFirst cpumodes = cpumodes := by
  unfold checkFirst
  rw [if_neg]
  intro hhead
  rw [List.getD_eq_getElem?_getD, ← List.head?_eq_getElem?, hhead] at h
  exact h rfl

/-- The number of a CPU is in range, or one behind. -/
theorem cpuOf_le (buffer : CString) : cpuOf cpuCount buffer < cpuCount + 1 := by
  unfold cpuOf
  dsimp only
  split <;> omega

end Commands

/-! ## One event -/

/-- What holds of the modes, and of CPU 0 in the loop. -/
structure State.Modes (cpuCount : Nat) (s : State) : Prop where
  length : s.cpumodes.length = cpuCount + 1
  valid : ∀ i < cpuCount, validMode (s.mode i)
  on : s.mode 0 ≠ cpumodeOffline
  loop : s.Each fun i cpu => i = 0 → cpu.online = true

section Step

variable {cpuCount : Nat} {s : State}

/-- CPU 0 is online after its turn. -/
theorem chooseOnline_online (cpu : Cpu) (rand rand' : Nat) :
    (cpu.chooseOnline 0 rand rand').1.online = true := by
  unfold Cpu.chooseOnline
  -- whatever it was before, `nextOnline` is true for CPU 0
  cases cpu.online <;> simp

/-- CPU 0 stays online in its turn. -/
theorem choose_online {cpu : Cpu} (h : cpu.online = true) (testmode : TestMode) (mode : Char)
    (idx0 : Int) (rand rand' : Nat) :
    (cpu.choose testmode mode idx0 0 rand rand').1.online = true := by
  cases testmode with
  | ascend | descend | random | syncRandom => exact h
  | cpuRandom =>
    unfold Cpu.choose
    dsimp only
    split
    · exact chooseOnline_online cpu rand rand'
    · exact h

/-- The turn of a CPU does not take CPU 0 offline. -/
theorem setOnline_not_mem_choose (cpu : Cpu) (testmode : TestMode) (mode : Char) (idx0 : Int)
    (i rand rand' : Nat) :
    ∀ a ∈ (cpu.choose testmode mode idx0 i rand rand').2, a ≠ .setOnline 0 false := by
  cases testmode with
  | ascend | descend | random | syncRandom => simp [Cpu.choose]
  | cpuRandom =>
    unfold Cpu.choose Cpu.chooseOnline
    dsimp only
    split
    · split
      · split <;> simp
      · split <;> simp
    · simp

theorem apply_ne_setOnline {cpu : Cpu} {i : Nat} (h : i = 0 → cpu.online = true) (mode : Char) :
    cpu.apply i mode ≠ .setOnline 0 false := by
  unfold Cpu.apply
  split
  next => split <;> simp
  next hoff =>
    intro heq
    exact hoff (h (Action.setOnline.inj heq).1)

/-- The loop leaves the modes alone. -/
theorem loopStep_cpumodes (rand rand' : Nat) :
    (s.loopStep cpuCount rand rand').1.cpumodes = s.cpumodes := by
  unfold State.loopStep
  split
  next => rfl
  next =>
    split
    next =>
      split
      next =>
        unfold State.setUp
        split <;> rfl
      next => rfl
    next => rfl
    next => rfl
    next => rfl
    next => split <;> rfl
    next => split <;> rfl
    next => split <;> rfl
    next => rfl

/-- No step of the thread takes CPU 0 offline. -/
theorem State.Modes.loopStep (h : s.Modes cpuCount) (rand rand' : Nat) :
    (s.loopStep cpuCount rand rand').1.Each (fun i cpu => i = 0 → cpu.online = true) ∧
      ∀ a ∈ (s.loopStep cpuCount rand rand').2, a ≠ .setOnline 0 false := by
  refine State.Each.loopStep h.loop ?_ ?_ ?_ (fun i cpu hcpu => apply_ne_setOnline hcpu _)
    (by simp) (by simp)
  -- CPU 0 is set up, and at each round set again, by its mode, which is not that of off
  · rintro loop i - - - - rfl
    simpa [State.newCpu] using h.on
  · rintro i cpu - rfl
    simpa using h.on
  · intro loop i cpu0 cpu _ _ _ _ _ hcpu
    refine ⟨?_, setOnline_not_mem_choose _ _ _ _ _ _ _⟩
    rintro rfl
    exact choose_online (hcpu rfl) _ _ _ _ _

/-- The event leaves the modes alone. -/
theorem State.Modes.same (h : s.Modes cpuCount) {e : Event}
    (hsame : (s.step cpuCount e).cpumodes = s.cpumodes)
    (hquiet : .setOnline 0 false ∉ s.actions cpuCount e) : ModesKept cpuCount s e where
  valid i hi := by
    unfold State.mode
    rw [hsame]
    exact h.valid i hi
  on := by
    unfold State.mode
    rw [hsame]
    exact h.on
  online := hquiet

/-- Another mode for one CPU. -/
theorem State.mode_set {i : Nat} (hi : i < s.cpumodes.length) (mode : Char) (j : Nat) :
    (s.cpumodes.set i mode).getD j '\x00' = if i = j then mode else s.mode j := by
  unfold State.mode
  rw [List.getD_eq_getElem?_getD, List.getElem?_set, if_pos hi]
  split <;> rfl

/-- `:setcpumodes:` -/
theorem State.Modes.setCpuModes_iff (h : s.Modes cpuCount) (buffer : CString) :
    ModesKept cpuCount s (.setCpuModes buffer) ↔ ModesSent cpuCount s (.setCpuModes buffer) := by
  cases hbusy : s.busy with
  | true =>
    -- the command waits, so that nothing is changed and nothing is asked of it
    have hwaits : ∀ {P : Prop}, s.busy = false → P := fun hfree => by
      rw [hbusy] at hfree
      exact Bool.noConfusion hfree
    exact iff_of_true (h.same (by simp [State.step, hbusy]) List.not_mem_nil)
      ⟨fun _ _ => hwaits, fun _ _ => hwaits, nofun, nofun⟩
  | false =>
    have hmode : ∀ i, (s.step cpuCount (.setCpuModes buffer)).mode i =
        (copyModes cpuCount s.cpumodes buffer).getD i '\x00' := by
      simp [State.step, State.mode, hbusy]
    constructor
    · intro hkept
      have hall := (copyModes_valid_iff s.cpumodes buffer).mp fun i hi =>
        hmode i ▸ hkept.valid i hi
      refine ⟨fun buffer' heq _ => ?_, fun buffer' heq _ => ?_, nofun, nofun⟩
      · rw [← Event.setCpuModes.inj heq]
        exact hall
      · rw [← Event.setCpuModes.inj heq]
        exact (copyModes_on_iff s.cpumodes hall.1).mp (hmode 0 ▸ hkept.on)
    · intro hsent
      have hall := hsent.all buffer rfl hbusy
      refine ⟨fun i hi => ?_, ?_, List.not_mem_nil⟩
      · rw [hmode]
        exact (copyModes_valid_iff _ _).mpr hall i hi
      · rw [hmode]
        exact (copyModes_on_iff _ hall.1).mpr (hsent.first buffer rfl hbusy)

/-- `:setcpumode:` -/
theorem State.Modes.setCpuMode_iff (h : s.Modes cpuCount) (buffer : CString) :
    ModesKept cpuCount s (.setCpuMode buffer) ↔ ModesSent cpuCount s (.setCpuMode buffer) := by
  cases hbusy : s.busy with
  | true =>
    have hwaits : ∀ {P : Prop}, s.busy = false → P := fun hfree => by
      rw [hbusy] at hfree
      exact Bool.noConfusion hfree
    exact iff_of_true (h.same (by simp [State.step, hbusy]) List.not_mem_nil)
      ⟨nofun, nofun, fun _ _ => hwaits, fun _ _ => hwaits⟩
  | false =>
    have hmode : ∀ i, (s.step cpuCount (.setCpuMode buffer)).mode i =
        if cpuOf cpuCount buffer = i then modeOf buffer else s.mode i := by
      intro i
      rw [← State.mode_set (h.length ▸ cpuOf_le buffer)]
      simp [State.step, State.mode, hbusy]
    constructor
    · refine fun hkept => ⟨nofun, nofun, fun buffer' heq _ hlt => ?_, fun buffer' heq _ hzero => ?_⟩
      · have hvalid := hkept.valid _ hlt
        rw [← Event.setCpuMode.inj heq] at hvalid ⊢
        rwa [hmode, if_pos rfl] at hvalid
      · have hon := hkept.on
        rw [← Event.setCpuMode.inj heq] at hzero ⊢
        rwa [hmode, if_pos hzero] at hon
    · refine fun hsent => ⟨fun i hi => ?_, ?_, List.not_mem_nil⟩
      · rw [hmode]
        split
        next heq => exact hsent.one buffer rfl hbusy (heq ▸ hi)
        next => exact h.valid i hi
      · rw [hmode]
        split
        next hzero => exact hsent.zero buffer rfl hbusy hzero
        next => exact h.on

/-- What a command does afterwards changes no mode that is valid, and none of CPU 0. -/
theorem State.Modes.goCommand (h : s.Modes cpuCount) : ModesKept cpuCount s .goCommand := by
  cases hpending : s.pending with
  | none => exact h.same (by simp [State.step, hpending]) (by simp [State.actions, hpending])
  | some pending =>
    cases pending with
    | checkFirst =>
      refine h.same ?_ (by simp [State.actions, hpending])
      have hsame := checkFirst_eq h.on
      simpa [State.step, hpending] using hsame
    | switchMode i =>
      have hstep : (s.step cpuCount .goCommand).cpumodes =
          s.cpumodes.set i (modeSet (s.mode i)) := by
        simp only [State.step, hpending]
      have hmode : ∀ j, (s.step cpuCount .goCommand).mode j = modeSet (s.mode i) ∧ i = j ∨
          (s.step cpuCount .goCommand).mode j = s.mode j := by
        intro j
        rw [State.mode, hstep]
        by_cases hi : i < s.cpumodes.length
        · rw [State.mode_set hi]
          by_cases hij : i = j
          · exact .inl ⟨if_pos hij, hij⟩
          · exact .inr (if_neg hij)
        · rw [List.set_eq_of_length_le (Nat.not_lt.mp hi)]
          exact .inr rfl
      refine ⟨fun j hj => ?_, ?_, ?_⟩
      · rcases hmode j with ⟨heq, -⟩ | heq
        · rw [heq]
          exact validMode_modeSet _
        · rw [heq]
          exact h.valid j hj
      · rcases hmode 0 with ⟨heq, hzero⟩ | heq
        · rw [heq, hzero, Ne, modeSet_eq_offline]
          exact h.on
        · rw [heq]
          exact h.on
      · unfold State.actions
        rw [hpending]
        dsimp only
        split
        next hoff =>
          intro hmem
          have hzero := (Action.setOnline.inj (List.mem_singleton.mp hmem)).1
          exact h.on (hzero ▸ hoff)
        next => simp

/-- A step keeps the modes sound when what was sent for CPU 0 is. -/
theorem State.Modes.kept_iff (h : s.Modes cpuCount) (e : Event) :
    ModesKept cpuCount s e ↔ ModesSent cpuCount s e := by
  cases e with
  | setCpuModes buffer => exact h.setCpuModes_iff buffer
  | setCpuMode buffer => exact h.setCpuMode_iff buffer
  | goCommand => exact iff_of_true h.goCommand ⟨nofun, nofun, nofun, nofun⟩
  | loop rand rand' =>
    refine iff_of_true (h.same (loopStep_cpumodes rand rand') fun hmem => ?_)
      ⟨nofun, nofun, nofun, nofun⟩
    exact (h.loopStep rand rand').2 _ hmem rfl
  | stop =>
    refine iff_of_true (h.same ?_ List.not_mem_nil) ⟨nofun, nofun, nofun, nofun⟩
    unfold State.step
    dsimp only
    split
    · rfl
    · split <;> rfl
  | setTestMode buffer | run available governors =>
    refine iff_of_true (h.same ?_ List.not_mem_nil) ⟨nofun, nofun, nofun, nofun⟩
    unfold State.step
    dsimp only
    split <;> rfl

/-- The modes keep their number. -/
theorem State.Modes.length_step (h : s.Modes cpuCount) (e : Event) :
    (s.step cpuCount e).cpumodes.length = cpuCount + 1 := by
  have hlength := h.length
  cases e with
  | loop rand rand' => exact (congrArg _ (loopStep_cpumodes rand rand')).trans hlength
  | setCpuModes buffer =>
    unfold State.step
    dsimp only
    split
    · exact hlength
    · exact length_copyModes hlength _
  | setCpuMode buffer =>
    unfold State.step
    dsimp only
    split
    · exact hlength
    · exact List.length_set.trans hlength
  | goCommand =>
    unfold State.step
    dsimp only
    split
    · exact hlength
    · unfold checkFirst
      dsimp only
      split
      · exact List.length_set.trans hlength
      · exact hlength
    · exact List.length_set.trans hlength
  | stop =>
    unfold State.step
    dsimp only
    split
    · exact hlength
    · split <;> exact hlength
  | setTestMode buffer | run available governors =>
    unfold State.step
    dsimp only
    split <;> exact hlength

/-- A step keeps the modes sound. -/
theorem State.Modes.step (h : s.Modes cpuCount) {e : Event} (he : ModesKept cpuCount s e) :
    (s.step cpuCount e).Modes cpuCount := by
  refine ⟨h.length_step e, he.valid, he.on, ?_⟩
  cases e with
  | loop rand rand' => exact (h.loopStep rand rand').1
  | setTestMode buffer | setCpuModes buffer | setCpuMode buffer | goCommand
  | run available governors | stop =>
    exact h.loop.command nofun

end Step

/-! ## Every run -/

/-- The modes are sound as the service starts. -/
theorem modes_init (cpuCount : Nat) : (State.init cpuCount).Modes cpuCount := by
  have hmode : ∀ i, (State.init cpuCount).mode i =
      if i < cpuCount then cpumodeUser else '\x00' := by
    intro i
    unfold State.mode State.init
    rw [List.getD_eq_getElem?_getD, List.getElem?_append]
    simp only [List.length_replicate, List.getElem?_replicate]
    split
    next => rfl
    next => cases i - cpuCount <;> rfl
  refine ⟨by simp [State.init], fun i hi => ?_, ?_, nofun⟩
  · rw [hmode, if_pos hi]
    exact .inr (.inr rfl)
  · rw [hmode]
    split <;> decide

/-- Every mode is valid, and CPU 0 stays on, at every event of a run exactly when each
`:setcpumodes:` has a valid mode for every CPU, each `:setcpumode:` a valid one, and none of
them asks for CPU 0 to be off. -/
theorem modesKept_iff (cpuCount : Nat) (events : List Event) :
    AllSteps (State.step cpuCount) (ModesKept cpuCount) (.init cpuCount) events ↔
      AllSteps (State.step cpuCount) (ModesSent cpuCount) (.init cpuCount) events :=
  AllSteps.congr (I := State.Modes cpuCount)
    (fun _ e h => ⟨h.kept_iff e, fun hsent => h.step ((h.kept_iff e).mpr hsent)⟩)
    (modes_init cpuCount)

/-- `:setcpumode:0:x` -/
theorem modesKept_fails_offline :
    ¬ AllSteps (State.step 2) (ModesKept 2) (.init 2) [.setCpuMode ['0', ':', 'x']] := by
  intro h
  exact h.1.on (by decide)

end AndroidLearn.Cputest
