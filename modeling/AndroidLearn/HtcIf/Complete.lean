import AndroidLearn.HtcIf.Steps

/-!
# The output is forwarded, and it ends

What `htc_if_thread` of `htc_if.c` owes to the client, from the invariant of `Invariant`:
`Ordered`, that it has a begin of each stream, in order, and at most one exit code, and
`Complete`, that it has all of both and the code that the child exited with.

When the exit code is in its pipe, no more output can come. From then on every step of the
forwarding thread brings it nearer to the end (`daemon_measure`): a cycle that forwards
something leaves less to read, and one that does not is the last, unless it had looked at
the status pipe too early to see the code (`State.stale`). What the child and the waiting
thread could still do is nothing (`step_ended`).

Theorem: `forward_complete`, for every run. The output is ordered in every state, complete
at the end, and the end comes once the child has ended and the thread gets enough turns.
-/

namespace AndroidLearn.HtcIf

/-- The child has exited and its exit code is on its way. -/
def State.Ended (s : State) : Prop := s.exited ≠ none ∧ (s.pipe .sta).written ≠ []

/-! ## The measure -/

/-- The bytes in the pipes. -/
def State.unread (s : State) : Nat :=
  (s.pipe .out).buffer.length + (s.pipe .err).buffer.length + (s.pipe .sta).buffer.length

/-- The steps left in the cycle. -/
def State.stepsLeft (s : State) : Nat :=
  match s.pc with
  | .poll n => s.pollfds.length - n + s.pollfds.length + 2
  | .slot i _ => s.pollfds.length - i + 1
  | .done => 0

/-- The cycle has looked at the status pipe, and found nothing. -/
def State.stale (s : State) : Prop :=
  ∃ j slot, s.idx .sta = some j ∧ s.pollfds[j]? = some slot ∧ slot.revents.pollIn = false ∧
    match s.pc with
    | .poll n => j < n
    | .slot _ _ => True
    | .done => False

/-- A cycle that has forwarded something, or that looked too early, may be followed by
another one. -/
def State.mayGoOn (s : State) : Prop := (∃ i, s.pc = .slot i true) ∨ s.stale

open Classical in
/-- What is left to do: the bytes, each with a cycle of its own, and the steps of this cycle. -/
noncomputable def State.measure (s : State) : Nat :=
  9 * s.unread + s.stepsLeft + if s.mayGoOn then 8 else 0

section Measure

variable {s s' : State}

/-- A step within a cycle. -/
theorem measure_lt_of_steps (hunread : s'.unread ≤ s.unread) (hsteps : s'.stepsLeft < s.stepsLeft)
    (hgo : s'.mayGoOn → s.mayGoOn) : s'.measure < s.measure := by
  unfold State.measure
  by_cases h : s'.mayGoOn
  · rw [if_pos h, if_pos (hgo h)]
    omega
  · rw [if_neg h]
    split <;> omega

/-- A step that reads something. -/
theorem measure_lt_of_unread (hunread : s'.unread < s.unread) (hsteps : s'.stepsLeft ≤ s.stepsLeft) :
    s'.measure < s.measure := by
  unfold State.measure
  split <;> split <;> omega

/-- The last step of a cycle. -/
theorem measure_lt_of_cycle (hunread : s'.unread ≤ s.unread) (hsteps : s'.stepsLeft < s.stepsLeft + 8)
    (hgo : s.mayGoOn) (hgo' : ¬ s'.mayGoOn) : s'.measure < s.measure := by
  unfold State.measure
  rw [if_pos hgo, if_neg hgo']
  omega

end Measure

section Steps

variable {s : State} {n i : Nat} {msgSent : Bool} {slot : Slot} {c : Choice}

/-- The exit code can be seen. -/
theorem Inv.sta_readable (hinv : Inv s) (hended : s.Ended) (hsta : s.idx .sta ≠ none) :
    (s.pipe .sta).buffer ≠ [] := by
  rw [hinv.sta_unread hsta]
  exact hended.2

theorem not_mayGoOn_poll (hpc : s.pc = .poll 0) : ¬ s.mayGoOn := by
  rintro (⟨i, h⟩ | ⟨j, slot, -, -, -, h⟩)
  · rw [hpc] at h
    exact Pc.noConfusion h
  · rw [hpc] at h
    exact Nat.not_lt_zero j h

theorem not_mayGoOn_done (hpc : s.pc = .done) : ¬ s.mayGoOn := by
  rintro (⟨i, h⟩ | ⟨j, slot, -, -, -, h⟩)
  · rw [hpc] at h
    exact Pc.noConfusion h
  · rw [hpc] at h
    exact h

/-- Looking at a slot leaves less to do. -/
theorem measure_look (hinv : Inv s) (hended : s.Ended) (hpc : s.pc = .poll n)
    (hslot : s.pollfds[n]? = some slot) :
    State.measure { s with
      pollfds := s.pollfds.set n { slot with revents := (s.pipe slot.fd).revents c }
      pc := .poll (n + 1) } < s.measure := by
  have hlt := (List.getElem?_eq_some_iff.mp hslot).1
  refine measure_lt_of_steps (Nat.le_refl _) ?_ ?_
  · unfold State.stepsLeft
    rw [hpc]
    simp only [List.length_set]
    omega
  · rintro (⟨i, h⟩ | ⟨j, slot', hsta, hj, hin, hjn⟩)
    · simp at h
    · have hsta : s.idx .sta = some j := hsta
      have hjn : j < n + 1 := hjn
      rcases set_revents hj with ⟨rfl, rfl⟩ | ⟨hne, hj⟩
      · -- it sees the code now
        have hfd := hinv.idx_inj hslot hsta
        have hempty := revents_not_in _ c hin
        rw [← hfd] at hempty
        exact absurd hempty (hinv.sta_readable hended (by rw [hsta]; simp))
      · refine .inr ⟨j, slot', hsta, hj, hin, ?_⟩
        rw [hpc]
        show j < n
        omega

/-- Coming back from `poll` leaves less to do. -/
theorem measure_return (hpc : s.pc = .poll n) (hend : s.pollfds[n]? = none) :
    State.measure { s with pc := .slot 0 false } < s.measure := by
  refine measure_lt_of_steps (Nat.le_refl _) ?_ ?_
  · unfold State.stepsLeft
    rw [hpc]
    dsimp only
    omega
  · rintro (⟨i, h⟩ | ⟨j, slot, hsta, hj, hin, -⟩)
    · simp at h
    · refine .inr ⟨j, slot, hsta, hj, hin, ?_⟩
      rw [hpc]
      exact slot_lt hj hend

/-- `poll` finds nothing only if it looked at the status pipe too early. -/
theorem measure_rescan (hinv : Inv s) (hpc : s.pc = .poll n) (hend : s.pollfds[n]? = none)
    (hquiet : s.pollfds.all Slot.quiet = true) :
    State.measure { s with pc := .poll 0 } < s.measure := by
  have hle := List.getElem?_eq_none_iff.mp hend
  have hall : ∀ (j : Nat) (slot : Slot), s.pollfds[j]? = some slot → slot.quiet = true := by
    intro j slot hj
    exact List.all_eq_true.mp hquiet slot (List.mem_of_getElem? hj)
  have hstale : s.mayGoOn := by
    cases hsta : s.idx .sta with
    | none =>
      -- then no slot is quiet
      obtain ⟨slot, pollfds, hcons⟩ := List.exists_cons_of_ne_nil (hinv.polled n hpc)
      have hzero : s.pollfds[0]? = some slot := by rw [hcons]; rfl
      have hold := hinv.accurate hsta
      unfold State.Accurate at hold
      rw [hpc] at hold
      have hnot := (hold 0 slot (slot_lt hzero hend) hzero).1
      rw [hall 0 slot hzero] at hnot
      exact absurd hnot (by simp)
    | some j =>
      obtain ⟨slot, hj, -⟩ := Option.map_eq_some_iff.mp (hinv.right .sta j hsta)
      have hq := hall j slot hj
      simp only [Slot.quiet, Bool.and_eq_true, Bool.not_eq_true'] at hq
      refine .inr ⟨j, slot, hsta, hj, hq.1, ?_⟩
      rw [hpc]
      exact slot_lt hj hend
  refine measure_lt_of_cycle (Nat.le_refl _) ?_ hstale (not_mayGoOn_poll rfl)
  have hthree := hinv.atMostThree
  unfold State.stepsLeft
  rw [hpc]
  dsimp only
  omega

/-- A turn over a slot brings the end of the cycle nearer. -/
theorem stepsLeft_turn (hpc : s.pc = .slot i msgSent) (hslot : s.pollfds[i]? = some slot) {s' : State}
    {m : Bool} (hpollfds : s'.pollfds = s.pollfds) (hpc' : s'.pc = .slot (i + 1) m) :
    s'.stepsLeft < s.stepsLeft := by
  have hlt := (List.getElem?_eq_some_iff.mp hslot).1
  unfold State.stepsLeft
  rw [hpc, hpc', hpollfds]
  dsimp only
  omega

/-- A turn without a message. -/
theorem measure_turn (hpc : s.pc = .slot i msgSent) (hslot : s.pollfds[i]? = some slot) {s' : State}
    (hpollfds : s'.pollfds = s.pollfds) (hpc' : s'.pc = .slot (i + 1) msgSent)
    (hunread : s'.unread ≤ s.unread) (hidx : s'.idx .sta = none ∨ s'.idx .sta = s.idx .sta) :
    s'.measure < s.measure := by
  refine measure_lt_of_steps hunread (stepsLeft_turn hpc hslot hpollfds hpc') ?_
  rintro (⟨k, h⟩ | ⟨j, slot', hsta, hj, hin, -⟩)
  · rw [hpc'] at h
    obtain ⟨-, rfl⟩ := Pc.slot.inj h
    exact .inl ⟨i, hpc⟩
  · rw [hpollfds] at hj
    rcases hidx with hnone | hsame
    · rw [hnone] at hsta
      exact absurd hsta (by simp)
    · refine .inr ⟨j, slot', hsame ▸ hsta, hj, hin, ?_⟩
      rw [hpc]
      trivial

/-- A read that gives something leaves less in the pipes. -/
theorem unread_forward (s : State) (i : Nat) (f : Fd) (c : Choice)
    (hcount : (s.pipe f).readCount f c ≠ 0) :
    (s.forward i ((s.pipe f).readCount f c) f).unread < s.unread := by
  have hle : (s.pipe f).readCount f c ≤ (s.pipe f).buffer.length := by
    unfold Pipe.readCount
    split <;> omega
  unfold State.unread State.forward State.setPipe
  cases f <;> simp [Function.update, List.length_drop] <;> omega

/-- The turn of a slot leaves less to do. -/
theorem measure_handleSlot (hinv : Inv s) (hpc : s.pc = .slot i msgSent)
    (hslot : s.pollfds[i]? = some slot) (c : Choice) :
    (s.handleSlot c i msgSent slot).measure < s.measure := by
  have hidx := hinv.idx_turn hpc hslot
  have howner := owner_eq hinv.right hslot hidx
  unfold State.handleSlot
  split
  · dsimp only
    split
    · exact measure_turn hpc hslot rfl rfl (Nat.le_refl _) (.inr rfl)
    next hcount =>
      have hunread := unread_forward s i slot.fd c hcount
      rw [howner]
      dsimp only
      split
      · exact measure_lt_of_unread hunread
          (Nat.le_of_lt (stepsLeft_turn hpc hslot rfl (m := true) rfl))
      · exact measure_lt_of_unread hunread
          (Nat.le_of_lt (stepsLeft_turn hpc hslot rfl (m := true) rfl))
  · split
    · rw [howner]
      refine measure_turn hpc hslot rfl rfl (Nat.le_refl _) ?_
      dsimp only
      by_cases hfd : slot.fd = .sta
      · exact .inl (by rw [hfd, Function.update_self])
      · exact .inr (Function.update_of_ne (Ne.symm hfd) _ _)
    · exact measure_turn hpc hslot rfl rfl (Nat.le_refl _) (.inr rfl)

/-- The next cycle leaves less to do. -/
theorem measure_nextCycle (hinv : Inv s) (hpc : s.pc = .slot i msgSent)
    (hend : s.pollfds[i]? = none) : (s.nextCycle msgSent).measure < s.measure := by
  obtain ⟨-, hopen, hlength, -⟩ := setupPollfds_spec s.idx
  have hle := List.getElem?_eq_none_iff.mp hend
  have hsteps : s.stepsLeft = 1 := by
    unfold State.stepsLeft
    rw [hpc]
    dsimp only
    omega
  unfold State.nextCycle
  dsimp only
  split
  next hnext =>
    have hgo : s.mayGoOn := by
      rcases hnext.2 with hm | hsta
      · exact .inl ⟨i, by rw [hpc, hm]⟩
      · cases hidx : s.idx .sta with
        | none => exact absurd ((hopen .sta).mpr hidx) hsta
        | some j =>
          obtain ⟨slot, hj, -⟩ := Option.map_eq_some_iff.mp (hinv.right .sta j hidx)
          have hin := hinv.late i msgSent j slot hpc (slot_lt hj hend) hidx hj
          refine .inr ⟨j, slot, hidx, hj, hin, ?_⟩
          rw [hpc]
          trivial
    refine measure_lt_of_cycle (Nat.le_refl _) ?_ hgo (not_mayGoOn_poll rfl)
    rw [hsteps]
    unfold State.stepsLeft
    dsimp only
    omega
  next =>
    refine measure_lt_of_steps (Nat.le_refl _) ?_ (fun h => absurd h (not_mayGoOn_done rfl))
    rw [hsteps]
    exact Nat.zero_lt_one

/-- In the end nothing is left. -/
theorem measure_done (hinv : Inv s) (hpc : s.pc = .done) : s.measure = 0 := by
  have hlast := hinv.exitLast
  rw [if_pos hpc] at hlast
  have hunread : s.unread = 0 := by
    unfold State.unread
    simp [hlast.2.2]
  have hsteps : s.stepsLeft = 0 := by
    unfold State.stepsLeft
    rw [hpc]
  unfold State.measure
  rw [if_neg (not_mayGoOn_done hpc), hunread, hsteps]

/-- Once the child has ended, every step of the thread leads on. -/
theorem daemon_measure (hinv : Inv s) (hended : s.Ended) (hpc : s.pc ≠ .done) (c : Choice) :
    (s.daemon c).measure < s.measure := by
  unfold State.daemon
  split
  next n hpc =>
    split
    next slot hslot => exact measure_look hinv hended hpc hslot
    next hend =>
      unfold State.pollReturn
      split
      next hquiet =>
        split
        · exact measure_return hpc hend
        · exact measure_rescan hinv hpc hend hquiet
      · exact measure_return hpc hend
  next i msgSent hpc =>
    split
    next slot hslot => exact measure_handleSlot hinv hpc hslot c
    next hend => exact measure_nextCycle hinv hpc hend
  next hdone => exact absurd hdone hpc

/-! ## The end -/

/-- What the thread leaves alone. -/
structure SameEnds (s s' : State) : Prop where
  exited : s'.exited = s.exited
  written : ∀ f, (s'.pipe f).written = (s.pipe f).written

theorem SameEnds.of_pipe {s' : State} (hexited : s'.exited = s.exited) (hpipe : s'.pipe = s.pipe) :
    SameEnds s s' :=
  ⟨hexited, fun f => by rw [hpipe]⟩

/-- What is read of a pipe does not open it again. -/
theorem SameEnds.of_setPipe {s' : State} {f : Fd} {buffer : List UInt8} (hexited : s'.exited = s.exited)
    (hpipe : s'.pipe = Function.update s.pipe f { s.pipe f with buffer := buffer }) :
    SameEnds s s' := by
  refine ⟨hexited, fun g => ?_⟩
  rw [hpipe]
  by_cases hg : g = f
  · subst hg
    rw [Function.update_self]
  · rw [Function.update_of_ne hg]

/-- The turn of a slot leaves the ends of the pipes as they are. -/
theorem sameEnds_handleSlot (s : State) (c : Choice) (i : Nat) (msgSent : Bool) (slot : Slot) :
    SameEnds s (s.handleSlot c i msgSent slot) := by
  unfold State.handleSlot
  split
  · dsimp only
    split
    · exact .of_pipe rfl rfl
    · split
      · exact .of_setPipe rfl rfl
      · split
        · exact .of_setPipe rfl rfl
        · exact .of_setPipe rfl rfl
  · split
    · split
      · exact .of_pipe rfl rfl
      · exact .of_pipe rfl rfl
    · exact .of_pipe rfl rfl

/-- The thread writes nothing into the pipes. -/
theorem sameEnds_daemon (s : State) (c : Choice) : SameEnds s (s.daemon c) := by
  unfold State.daemon
  split
  · split
    · exact .of_pipe rfl rfl
    · unfold State.pollReturn
      split
      · split
        · exact .of_pipe rfl rfl
        · exact .of_pipe rfl rfl
      · exact .of_pipe rfl rfl
  · split
    · exact sameEnds_handleSlot _ _ _ _ _
    · unfold State.nextCycle
      dsimp only
      split
      · exact .of_pipe rfl rfl
      · exact .of_pipe rfl rfl
  · exact .of_pipe rfl rfl

/-- What the child has ended stays ended. -/
theorem daemon_ended (hended : s.Ended) (c : Choice) : (s.daemon c).Ended := by
  obtain ⟨hexited, hwritten⟩ := sameEnds_daemon s c
  unfold State.Ended
  rw [hexited, hwritten]
  exact hended

/-- Nothing else happens once the child has ended. -/
theorem step_ended (hinv : Inv s) (hended : s.Ended) {e : Event} (he : ∀ c, e ≠ .daemon c) :
    s.step e = s := by
  cases e with
  | write f data =>
    simp only [State.step]
    split
    next h =>
      have hclosed := hinv.exitCloses hended.1 f h.1
      rw [h.2] at hclosed
      exact absurd hclosed (by simp)
    next => rfl
  | close f =>
    simp only [State.step]
    split
    next h =>
      have hclosed := hinv.exitCloses hended.1 f h
      have hsame : { s.pipe f with closed := true } = s.pipe f := by
        rw [← hclosed]
      unfold State.close State.setPipe
      rw [hsame, Function.update_eq_self]
    next => rfl
  | exit code =>
    simp only [State.step]
    rw [if_neg hended.1]
  | status =>
    simp only [State.step]
    split
    · rw [if_neg hended.2]
    · rfl
  | daemon c => exact absurd rfl (he c)

end Steps

/-- How often the forwarding thread comes to its turn. -/
def turns : List Event → Nat
  | [] => 0
  | .daemon _ :: events => turns events + 1
  | _ :: events => turns events

/-- A step of the child is no turn of the daemon. -/
theorem turns_cons_other {e : Event} (he : ∀ c, e ≠ .daemon c) (events : List Event) :
    turns (e :: events) = turns events := by
  cases e with
  | daemon c => exact absurd rfl (he c)
  | _ => rfl

/-- Once the child has ended, the thread comes to its end in as many turns as the
measure says. -/
theorem run_done {events : List Event} :
    ∀ {s : State}, Inv s → s.Ended → s.measure ≤ turns events → (s.run events).pc = .done := by
  induction events with
  | nil =>
    intro s hinv hended hle
    by_contra hpc
    have hless := daemon_measure hinv hended hpc ⟨false, false, 0⟩
    exact absurd (Nat.le_trans (Nat.succ_le_of_lt hless) hle) (Nat.not_succ_le_zero _)
  | cons e events ih =>
    intro s hinv hended hle
    by_cases he : ∃ c, e = .daemon c
    · obtain ⟨c, rfl⟩ := he
      by_cases hpc : s.pc = .done
      · refine ih (hinv.daemon c) (daemon_ended hended c) ?_
        have hsame : s.daemon c = s := by
          unfold State.daemon
          rw [hpc]
        show (s.daemon c).measure ≤ turns events
        rw [hsame, measure_done hinv hpc]
        exact Nat.zero_le _
      · have hless := daemon_measure hinv hended hpc c
        refine ih (hinv.daemon c) (daemon_ended hended c) ?_
        have hturns : turns (.daemon c :: events) = turns events + 1 := rfl
        show (s.daemon c).measure ≤ turns events
        omega
    · have he : ∀ c, e ≠ .daemon c := fun c h => he ⟨c, h⟩
      show ((s.step e).run events).pc = .done
      rw [step_ended hinv hended he]
      rw [turns_cons_other he] at hle
      exact ih hinv hended hle

/-! ## What the client gets -/

/-- What the client has at any time. -/
structure Ordered (s : State) : Prop where
  /-- what was forwarded of a stream is its begin, the rest is still in the pipe -/
  sent : ∀ f, forwarded f s.log ++ (s.pipe f).buffer = (s.pipe f).written
  /-- the exit code is replied once at most -/
  code : codeReplies s.log = [] ∨
    ∃ code, s.exited = some code ∧ codeReplies s.log = [codeBytes code]
  /-- the final reply is not sent before the end -/
  exit : .exit ∈ s.log → s.pc = .done
  /-- the indices are those of the right descriptors, -/
  right : ∀ f j, s.idx f = some j → (s.pollfds[j]?).map Slot.fd = some f
  /-- and no two are the same -/
  distinct : ∀ f g j, s.idx f = some j → s.idx g = some j → f = g

/-- What the client has at the end. -/
structure Complete (s : State) : Prop where
  all : ∀ f, forwarded f s.log = (s.pipe f).written
  code : ∃ code, s.exited = some code ∧ codeReplies s.log = [codeBytes code]
  last : ∃ front, s.log = front ++ [.exit] ∧ .exit ∉ front

/-- What is forwarded comes in order. -/
theorem Inv.ordered {s : State} (hinv : Inv s) : Ordered s where
  sent := hinv.sent
  code := by
    by_cases hsta : s.idx .sta = none
    · obtain ⟨hreply, hne⟩ := hinv.replied hsta
      rcases hinv.staWritten with hnil | ⟨code, hexited, hcode⟩
      · exact absurd hnil hne
      · exact .inr ⟨code, hexited, by rw [hreply, hcode]⟩
    · exact .inl (hinv.unreplied hsta)
  exit hmem := by
    by_contra hpc
    have hlast := hinv.exitLast
    rw [if_neg hpc] at hlast
    exact hlast hmem
  right := hinv.right
  distinct f g j hf hg := by
    have h := hinv.right f j hf
    rw [hinv.right g j hg] at h
    exact (Option.some.inj h).symm

/-- Behind the loop everything was forwarded. -/
theorem Inv.complete {s : State} (hinv : Inv s) (hpc : s.pc = .done) : Complete s := by
  have hlast := hinv.exitLast
  rw [if_pos hpc] at hlast
  obtain ⟨hexit, hsta, hempty⟩ := hlast
  refine ⟨fun f => ?_, ?_, hexit⟩
  · have hsent := hinv.sent f
    rw [hempty f, List.append_nil] at hsent
    exact hsent
  · obtain ⟨hreply, hne⟩ := hinv.replied hsta
    rcases hinv.staWritten with hnil | ⟨code, hexited, hcode⟩
    · exact absurd hnil hne
    · exact ⟨code, hexited, by rw [hreply, hcode]⟩

/-- In every run the client has a begin of each stream, in order. It has all of it at
the end, which comes when the child has ended and the thread gets enough turns. -/
theorem forward_complete (events : List Event) :
    let s := State.init.run events
    Ordered s ∧ (s.pc = .done → Complete s) ∧
      (s.Ended → ∃ n, ∀ more, n ≤ turns more → (s.run more).pc = .done) := by
  have hinv := inv_run events
  exact ⟨hinv.ordered, hinv.complete, fun hended => ⟨_, fun _ hle => run_done hinv hended hle⟩⟩

end AndroidLearn.HtcIf
