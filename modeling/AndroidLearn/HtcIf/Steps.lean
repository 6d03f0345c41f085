import AndroidLearn.HtcIf.Invariant

/-!
# Every step keeps the invariant

One lemma for each step of `Forward`: what the child and the waiting thread do to a pipe
(`grown_write`, `grown_close`, `grown_exit`, `grown_status`), a look of `poll` and its
return (`inv_look`, `inv_rescan`, `inv_return`), the turn of a slot (`inv_handleSlot`),
and the next cycle (`inv_nextCycle`).

A pipe only grows from the outside (`Grown`), and `Inv.grown` keeps the invariant for all
of these at once. The turn of a slot forwards what was read, replies with the exit code,
or gives the stream up (`inv_forward`, `inv_reply`, `inv_giveUp`), and goes on to the next
slot (`inv_advance`).

`Inv.daemon` and `Inv.step` put them together, and `inv_run` is the induction over a run.
-/

namespace AndroidLearn.HtcIf

/-! ## The child and the waiting thread -/

/-- The pipes have grown, as far as anyone could write to them; the thread has not
moved. -/
structure Grown (s s' : State) : Prop where
  pollfds : s'.pollfds = s.pollfds
  idx : s'.idx = s.idx
  pc : s'.pc = s.pc
  log : s'.log = s.log
  more : ∀ f, ∃ data, (s'.pipe f).written = (s.pipe f).written ++ data ∧
    (s'.pipe f).buffer = (s.pipe f).buffer ++ data ∧
    ((s.pipe f).closed = true → data = []) ∧
    (f = .sta → (s.pipe .sta).written ≠ [] → data = [])
  closed : ∀ f, (s.pipe f).closed = true → (s'.pipe f).closed = true
  exitCloses : s'.exited ≠ none → ∀ f, f ≠ .sta → (s'.pipe f).closed = true
  staOpen : (s'.pipe .sta).closed = false
  staWritten : (s'.pipe .sta).written = [] ∨
    ∃ code, s'.exited = some code ∧ (s'.pipe .sta).written = codeBytes code

section Grown

variable {s s' : State}

/-- A pipe that is closed, and the status pipe once it was written, stay as they are. -/
theorem Grown.same (h : Grown s s') {f : Fd}
    (hf : (s.pipe f).closed = true ∨ f = .sta ∧ (s.pipe .sta).written ≠ []) :
    (s'.pipe f).written = (s.pipe f).written ∧ (s'.pipe f).buffer = (s.pipe f).buffer := by
  obtain ⟨data, hwritten, hbuffer, hclosed, hsta⟩ := h.more f
  have hnil : data = [] := by
    rcases hf with hf | ⟨hf, hne⟩
    · exact hclosed hf
    · exact hsta hf hne
  rw [hwritten, hbuffer, hnil]
  simp

/-- Behind the reply the status pipe stays as it is. -/
theorem Inv.same_of_replied (hinv : Inv s) (h : Grown s s') (hsta : s.idx .sta = none) (f : Fd) :
    (s'.pipe f).written = (s.pipe f).written ∧ (s'.pipe f).buffer = (s.pipe f).buffer := by
  refine h.same ?_
  by_cases hf : f = .sta
  · exact .inr ⟨hf, (hinv.replied hsta).2⟩
  · exact .inl (hinv.closed hsta f hf)

/-- What the child writes or closes keeps the invariant. -/
theorem Inv.grown (hinv : Inv s) (h : Grown s s') : Inv s' where
  sent f := by
    obtain ⟨data, hwritten, hbuffer, -⟩ := h.more f
    rw [h.log, hwritten, hbuffer, ← List.append_assoc, hinv.sent f]
  exitCloses := h.exitCloses
  staOpen := h.staOpen
  staWritten := h.staWritten
  unreplied := by
    rw [h.idx, h.log]
    exact hinv.unreplied
  replied hsta := by
    rw [h.idx] at hsta
    rw [h.log, (hinv.same_of_replied h hsta .sta).1]
    exact hinv.replied hsta
  gone f hf hidx := by
    rw [h.idx] at hidx
    obtain ⟨hclosed, hbuffer⟩ := hinv.gone f hf hidx
    exact ⟨h.closed f hclosed, by rw [(h.same (.inl hclosed)).2, hbuffer]⟩
  right := by
    rw [h.idx, h.pollfds]
    exact hinv.right
  owned := by
    rw [h.idx, h.pollfds, h.pc]
    exact hinv.owned
  atMostThree := by
    rw [h.pollfds]
    exact hinv.atMostThree
  polled := by
    rw [h.pollfds, h.pc]
    exact hinv.polled
  seenIn j slot hslot hreported hin := by
    rw [h.pollfds] at hslot
    rw [h.pc] at hreported
    rcases hinv.seenIn j slot hslot hreported hin with hne | hclosed
    · obtain ⟨data, -, hbuffer, -⟩ := h.more slot.fd
      left
      rw [hbuffer]
      simp [hne]
    · exact .inr (h.closed _ hclosed)
  seenHup j slot hslot hreported hin hhup := by
    rw [h.pollfds] at hslot
    rw [h.pc] at hreported
    obtain ⟨hclosed, hbuffer⟩ := hinv.seenHup j slot hslot hreported hin hhup
    exact ⟨h.closed _ hclosed, by rw [(h.same (.inl hclosed)).2, hbuffer]⟩
  accurate hsta := by
    rw [h.idx] at hsta
    have hold := hinv.accurate hsta
    have hbuffer := fun f => (hinv.same_of_replied h hsta f).2
    unfold State.Accurate at hold ⊢
    rw [h.pc, h.pollfds]
    simpa only [hbuffer] using hold
  late := by
    rw [h.pc, h.idx, h.pollfds]
    exact hinv.late
  exitLast := by
    rw [h.pc, h.idx, h.log]
    have hold := hinv.exitLast
    split
    next hdone =>
      rw [if_pos hdone] at hold
      obtain ⟨hlog, hsta, hempty⟩ := hold
      exact ⟨hlog, hsta, fun f => by rw [(hinv.same_of_replied h hsta f).2, hempty f]⟩
    next hdone =>
      rw [if_neg hdone] at hold
      exact hold

end Grown

section Outside

variable {s : State}

/-- A write of the child. -/
theorem grown_write (hinv : Inv s) {f : Fd} (data : List UInt8) (hf : f ≠ .sta)
    (hopen : (s.pipe f).closed = false) : Grown s (s.write f data) where
  pollfds := rfl
  idx := rfl
  pc := rfl
  log := rfl
  more g := by
    by_cases hg : g = f
    · subst hg
      refine ⟨data, ?_, ?_, fun h => ?_, fun h => absurd h hf⟩
      · simp [State.write, State.setPipe]
      · simp [State.write, State.setPipe]
      · rw [hopen] at h
        exact absurd h (by simp)
    · exact ⟨[], by simp [State.write, State.setPipe, Function.update_of_ne hg]⟩
  closed g h := by
    by_cases hg : g = f
    · subst hg
      simpa [State.write, State.setPipe] using h
    · simpa [State.write, State.setPipe, Function.update_of_ne hg] using h
  exitCloses hexited g hg := by
    by_cases hgf : g = f
    · subst hgf
      have hclosed := hinv.exitCloses hexited g hg
      rw [hopen] at hclosed
      exact absurd hclosed (by simp)
    · simpa [State.write, State.setPipe, Function.update_of_ne hgf] using
        hinv.exitCloses hexited g hg
  staOpen := by
    simpa [State.write, State.setPipe, Function.update_of_ne (Ne.symm hf)] using hinv.staOpen
  staWritten := by
    simpa [State.write, State.setPipe, Function.update_of_ne (Ne.symm hf)] using hinv.staWritten

/-- An end that the child closes. -/
theorem grown_close (hinv : Inv s) {f : Fd} (hf : f ≠ .sta) : Grown s (s.close f) where
  pollfds := rfl
  idx := rfl
  pc := rfl
  log := rfl
  more g := by
    by_cases hg : g = f
    · subst hg
      exact ⟨[], by simp [State.close, State.setPipe]⟩
    · exact ⟨[], by simp [State.close, State.setPipe, Function.update_of_ne hg]⟩
  closed g h := by
    by_cases hg : g = f
    · subst hg
      simp [State.close, State.setPipe]
    · simpa [State.close, State.setPipe, Function.update_of_ne hg] using h
  exitCloses hexited g hg := by
    by_cases hgf : g = f
    · subst hgf
      simp [State.close, State.setPipe]
    · simpa [State.close, State.setPipe, Function.update_of_ne hgf] using
        hinv.exitCloses hexited g hg
  staOpen := by
    simpa [State.close, State.setPipe, Function.update_of_ne (Ne.symm hf)] using hinv.staOpen
  staWritten := by
    simpa [State.close, State.setPipe, Function.update_of_ne (Ne.symm hf)] using hinv.staWritten

/-- The exit itself, of a child whose streams are closed. -/
theorem grown_exit (hinv : Inv s) (code : UInt32) (hexited : s.exited = none)
    (hclosed : ∀ f, f ≠ .sta → (s.pipe f).closed = true) :
    Grown s { s with exited := some code } where
  pollfds := rfl
  idx := rfl
  pc := rfl
  log := rfl
  more g := ⟨[], by simp⟩
  closed _ h := h
  exitCloses _ := hclosed
  staOpen := hinv.staOpen
  staWritten := by
    rcases hinv.staWritten with hnil | ⟨code, hcode, -⟩
    · exact .inl hnil
    · rw [hexited] at hcode
      exact absurd hcode (by simp)

/-- The status that the child leaves. -/
theorem grown_status (hinv : Inv s) {code : UInt32} (hexited : s.exited = some code)
    (hwritten : (s.pipe .sta).written = []) : Grown s (s.write .sta (codeBytes code)) where
  pollfds := rfl
  idx := rfl
  pc := rfl
  log := rfl
  more g := by
    by_cases hg : g = .sta
    · subst hg
      refine ⟨codeBytes code, ?_, ?_, fun h => ?_, fun _ h => absurd hwritten h⟩
      · simp [State.write, State.setPipe]
      · simp [State.write, State.setPipe]
      · rw [hinv.staOpen] at h
        exact absurd h (by simp)
    · exact ⟨[], by simp [State.write, State.setPipe, Function.update_of_ne hg]⟩
  closed g h := by
    by_cases hg : g = .sta
    · subst hg
      simpa [State.write, State.setPipe] using h
    · simpa [State.write, State.setPipe, Function.update_of_ne hg] using h
  exitCloses he g hg := by
    simpa [State.write, State.setPipe, Function.update_of_ne hg] using hinv.exitCloses he g hg
  staOpen := by simpa [State.write, State.setPipe] using hinv.staOpen
  staWritten := .inr ⟨code, hexited, by simp [State.write, State.setPipe, hwritten]⟩

end Outside

/-! ## `poll` -/

section Poll

variable {s : State} {n : Nat} {slot : Slot} {c : Choice}

/-- A slot lies in front of the end of the table. -/
theorem slot_lt {pollfds : List Slot} {j : Nat} (hj : pollfds[j]? = some slot)
    (hend : pollfds[n]? = none) : j < n := by
  have hlt := (List.getElem?_eq_some_iff.mp hj).1
  have hle := List.getElem?_eq_none_iff.mp hend
  omega

/-- A slot, once another has its events. -/
theorem set_revents {pollfds : List Slot} {r : Revents} {j : Nat} {slot' : Slot}
    (h : (pollfds.set n { slot with revents := r })[j]? = some slot') :
    j = n ∧ slot' = { slot with revents := r } ∨ j ≠ n ∧ pollfds[j]? = some slot' := by
  rw [List.getElem?_set] at h
  split at h
  next hj =>
    split at h
    · exact .inl ⟨hj.symm, (Option.some.inj h).symm⟩
    · exact absurd h (by simp)
  next hj => exact .inr ⟨Ne.symm hj, h⟩

/-- The descriptors of the slots stay as they are. -/
theorem set_revents_fd {pollfds : List Slot} (hslot : pollfds[n]? = some slot) (r : Revents) (j : Nat) :
    ((pollfds.set n { slot with revents := r })[j]?).map Slot.fd = (pollfds[j]?).map Slot.fd := by
  rw [List.getElem?_set]
  split
  next hj =>
    subst hj
    have hlt := (List.getElem?_eq_some_iff.mp hslot).1
    rw [if_pos hlt, hslot]
    rfl
  next => rfl

/-- `POLLIN` is seen where something can be read, or the end. -/
theorem revents_in (p : Pipe) (c : Choice) (h : (p.revents c).pollIn = true) :
    p.buffer ≠ [] ∨ p.closed = true := by
  unfold Pipe.revents at h
  split at h
  next hne => exact .inl hne
  next =>
    split at h
    next hclosed => exact .inr hclosed
    · exact absurd h (by simp)

/-- Without `POLLIN` there is nothing to read. -/
theorem revents_not_in (p : Pipe) (c : Choice) (h : (p.revents c).pollIn = false) :
    p.buffer = [] := by
  unfold Pipe.revents at h
  split at h
  · exact absurd h (by simp)
  next hnil => exact not_not.mp hnil

/-- `POLLHUP` is seen where the pipe is closed. -/
theorem revents_hup (p : Pipe) (c : Choice) (h : (p.revents c).pollHup = true) :
    p.closed = true := by
  unfold Pipe.revents at h
  split at h
  · exact h
  · split at h
    next hclosed => exact hclosed
    · exact absurd h (by simp)

/-- A closed pipe shows one of them. -/
theorem revents_closed (p : Pipe) (c : Choice) (h : p.closed = true) :
    (p.revents c).pollIn = true ∨ (p.revents c).pollHup = true := by
  unfold Pipe.revents
  split
  · exact .inl rfl
  · exact .inr rfl

/-- `poll` looks at a slot. -/
theorem inv_look (hinv : Inv s) (hpc : s.pc = .poll n) (hslot : s.pollfds[n]? = some slot) :
    Inv { s with
      pollfds := s.pollfds.set n { slot with revents := (s.pipe slot.fd).revents c }
      pc := .poll (n + 1) } where
  sent := hinv.sent
  exitCloses := hinv.exitCloses
  staOpen := hinv.staOpen
  staWritten := hinv.staWritten
  unreplied := hinv.unreplied
  replied := hinv.replied
  gone := hinv.gone
  right f j hj := by
    rw [set_revents_fd hslot]
    exact hinv.right f j hj
  owned j slot' hj _ := by
    have howned : ∀ j slot, s.pollfds[j]? = some slot → s.idx slot.fd = some j := by
      intro j slot hj
      refine hinv.owned j slot hj ?_
      rw [hpc]
      exact Nat.zero_le j
    rcases set_revents hj with ⟨rfl, rfl⟩ | ⟨-, hj⟩
    · exact howned j slot hslot
    · exact howned j slot' hj
  atMostThree := by
    rw [List.length_set]
    exact hinv.atMostThree
  polled m _ := by
    intro hnil
    have hlen := congrArg List.length hnil
    rw [List.length_set, List.length_nil] at hlen
    exact hinv.polled n hpc (List.length_eq_zero_iff.mp hlen)
  seenIn j slot' hj hreported hin := by
    rcases set_revents hj with ⟨rfl, rfl⟩ | ⟨hne, hj⟩
    · exact revents_in _ c hin
    · refine hinv.seenIn j slot' hj ?_ hin
      have hlt : j < n + 1 := hreported
      rw [hpc]
      show j < n
      omega
  seenHup j slot' hj hreported hin hhup := by
    rcases set_revents hj with ⟨rfl, rfl⟩ | ⟨hne, hj⟩
    · exact ⟨revents_hup _ c hhup, revents_not_in _ c hin⟩
    · refine hinv.seenHup j slot' hj ?_ hin hhup
      have hlt : j < n + 1 := hreported
      rw [hpc]
      show j < n
      omega
  accurate hsta := by
    have hold := hinv.accurate hsta
    unfold State.Accurate at hold
    rw [hpc] at hold
    show ∀ j slot', j < n + 1 → _
    intro j slot' hlt hj
    rcases set_revents hj with ⟨rfl, rfl⟩ | ⟨hne, hj⟩
    · refine ⟨?_, revents_not_in _ c⟩
      -- the streams are closed, and the status pipe has no slot any more
      have hfd : slot.fd ≠ .sta := by
        intro hfd
        have howned := hinv.owned j slot hslot (by rw [hpc]; exact Nat.zero_le j)
        rw [hfd, hsta] at howned
        exact absurd howned (by simp)
      rcases revents_closed _ c (hinv.closed hsta slot.fd hfd) with h | h <;> simp [Slot.quiet, h]
    · exact hold j slot' (by omega) hj
  late i m j slot' h := by simp at h
  exitLast := by
    have hold := hinv.exitLast
    rw [if_neg (by rw [hpc]; simp)] at hold
    rw [if_neg (by simp)]
    exact hold

/-- A cycle's slots are looked at again. -/
theorem inv_rescan (hinv : Inv s) (hpc : s.pc = .poll n) : Inv { s with pc := .poll 0 } where
  sent := hinv.sent
  exitCloses := hinv.exitCloses
  staOpen := hinv.staOpen
  staWritten := hinv.staWritten
  unreplied := hinv.unreplied
  replied := hinv.replied
  gone := hinv.gone
  right := hinv.right
  owned j slot hj _ := hinv.owned j slot hj (by rw [hpc]; exact Nat.zero_le j)
  atMostThree := hinv.atMostThree
  polled _ _ := hinv.polled n hpc
  seenIn j slot _ h := absurd h (Nat.not_lt_zero j)
  seenHup j slot _ h := absurd h (Nat.not_lt_zero j)
  accurate _ := fun j _ h => absurd h (Nat.not_lt_zero j)
  late _ _ _ _ h := by simp at h
  exitLast := by
    have hold := hinv.exitLast
    rw [if_neg (by rw [hpc]; simp)] at hold
    rw [if_neg (by simp)]
    exact hold

/-- `poll` returns, when it has looked at every slot. -/
theorem inv_return (hinv : Inv s) (hpc : s.pc = .poll n) (hend : s.pollfds[n]? = none) :
    Inv { s with pc := .slot 0 false } where
  sent := hinv.sent
  exitCloses := hinv.exitCloses
  staOpen := hinv.staOpen
  staWritten := hinv.staWritten
  unreplied := hinv.unreplied
  replied := hinv.replied
  gone := hinv.gone
  right := hinv.right
  owned j slot hj _ := hinv.owned j slot hj (by rw [hpc]; exact Nat.zero_le j)
  atMostThree := hinv.atMostThree
  polled _ h := by simp at h
  seenIn j slot hj _ := by
    refine hinv.seenIn j slot hj ?_
    rw [hpc]
    exact slot_lt hj hend
  seenHup j slot hj _ := by
    refine hinv.seenHup j slot hj ?_
    rw [hpc]
    exact slot_lt hj hend
  accurate hsta := by
    have hold := hinv.accurate hsta
    unfold State.Accurate at hold
    rw [hpc] at hold
    show ∀ j slot, _
    intro j slot hj hin
    rcases hin with h | hin
    · exact absurd h (Nat.not_lt_zero j)
    · exact (hold j slot (slot_lt hj hend) hj).2 hin
  late i m j slot h hlt := by
    obtain ⟨rfl, -⟩ : 0 = i ∧ false = m := by simpa using h
    exact absurd hlt (Nat.not_lt_zero j)
  exitLast := by
    have hold := hinv.exitLast
    rw [if_neg (by rw [hpc]; simp)] at hold
    rw [if_neg (by simp)]
    exact hold

/-- Coming back from `poll` keeps the invariant. -/
theorem inv_pollReturn (hinv : Inv s) (hpc : s.pc = .poll n) (hend : s.pollfds[n]? = none) :
    Inv (s.pollReturn c) := by
  unfold State.pollReturn
  split
  · split
    · exact inv_return hinv hpc hend
    · exact inv_rescan hinv hpc
  · exact inv_return hinv hpc hend

end Poll

/-! ## The turn of a slot -/

section Turn

variable {s : State} {i : Nat} {msgSent : Bool} {slot : Slot} {c : Choice}

/-- In the loop over the slots the exit notification is not sent yet. -/
theorem Inv.not_done (hinv : Inv s) (hpc : s.pc = .slot i msgSent) : Msg.exit ∉ s.log := by
  have hold := hinv.exitLast
  rw [if_neg (by rw [hpc]; simp)] at hold
  exact hold

/-- In its turn a slot has its index. -/
theorem Inv.idx_turn (hinv : Inv s) (hpc : s.pc = .slot i msgSent) (hslot : s.pollfds[i]? = some slot) :
    s.idx slot.fd = some i :=
  hinv.owned i slot hslot (by rw [hpc]; exact Nat.le_refl i)

/-- Only the slot's own descriptor has its index. -/
theorem Inv.idx_inj (hinv : Inv s) (hslot : s.pollfds[i]? = some slot) {f : Fd}
    (hf : s.idx f = some i) : f = slot.fd := by
  have h := hinv.right f i hf
  rw [hslot] at h
  simpa using h.symm

/-- The turn passes on. -/
theorem inv_advance (hinv : Inv s) (hpc : s.pc = .slot i msgSent) (hslot : s.pollfds[i]? = some slot)
    (hempty : s.idx .sta = none → msgSent = false → (s.pipe slot.fd).buffer = [])
    (hlate : s.idx .sta = some i → slot.revents.pollIn = false) :
    Inv { s with pc := .slot (i + 1) msgSent } where
  sent := hinv.sent
  exitCloses := hinv.exitCloses
  staOpen := hinv.staOpen
  staWritten := hinv.staWritten
  unreplied := hinv.unreplied
  replied := hinv.replied
  gone := hinv.gone
  right := hinv.right
  owned j slot hj hturn := by
    have hle : i + 1 ≤ j := hturn
    refine hinv.owned j slot hj ?_
    rw [hpc]
    show i ≤ j
    omega
  atMostThree := hinv.atMostThree
  polled _ h := by simp at h
  seenIn j slot hj hreported := by
    have hle : i + 1 ≤ j := hreported
    refine hinv.seenIn j slot hj ?_
    rw [hpc]
    show i ≤ j
    omega
  seenHup j slot hj hreported := by
    have hle : i + 1 ≤ j := hreported
    refine hinv.seenHup j slot hj ?_
    rw [hpc]
    show i ≤ j
    omega
  accurate hsta := by
    have hold := hinv.accurate hsta
    unfold State.Accurate at hold ⊢
    rw [hpc] at hold
    cases msgSent with
    | true => trivial
    | false =>
      intro j slot' hj hin
      by_cases hji : j = i
      · subst hji
        rw [hslot] at hj
        obtain rfl := Option.some.inj hj
        exact hempty hsta rfl
      · refine hold j slot' hj ?_
        rcases hin with hlt | hin
        · exact .inl (by omega)
        · exact .inr hin
  late k m j slot' h hlt hsta hj := by
    obtain ⟨rfl, -⟩ : i + 1 = k ∧ msgSent = m := by simpa using h
    by_cases hji : j = i
    · subst hji
      rw [hslot] at hj
      obtain rfl := Option.some.inj hj
      exact hlate hsta
    · exact hinv.late i msgSent j slot' hpc (by omega) hsta hj
  exitLast := by
    rw [if_neg (by simp)]
    exact hinv.not_done hpc

/-- A stream at its end is given up, behind its turn. -/
theorem inv_giveUp (hinv : Inv s) {f : Fd} (hpc : s.pc = .slot (i + 1) msgSent) (hf : f ≠ .sta)
    (hidx : s.idx f = some i) (hclosed : (s.pipe f).closed = true) (hempty : (s.pipe f).buffer = []) :
    Inv { s with idx := Function.update s.idx f none } where
  sent := hinv.sent
  exitCloses := hinv.exitCloses
  staOpen := hinv.staOpen
  staWritten := hinv.staWritten
  unreplied := by
    dsimp only
    rw [Function.update_of_ne (Ne.symm hf)]
    exact hinv.unreplied
  replied := by
    dsimp only
    rw [Function.update_of_ne (Ne.symm hf)]
    exact hinv.replied
  gone g hg h := by
    dsimp only at h
    by_cases hgf : g = f
    · subst hgf
      exact ⟨hclosed, hempty⟩
    · rw [Function.update_of_ne hgf] at h
      exact hinv.gone g hg h
  right g j h := by
    dsimp only at h
    by_cases hgf : g = f
    · subst hgf
      rw [Function.update_self] at h
      exact absurd h (by simp)
    · rw [Function.update_of_ne hgf] at h
      exact hinv.right g j h
  owned j slot hj hturn := by
    have howned := hinv.owned j slot hj hturn
    have hle : i + 1 ≤ j := by
      rw [hpc] at hturn
      exact hturn
    have hne : slot.fd ≠ f := by
      rintro rfl
      rw [hidx] at howned
      have heq := Option.some.inj howned
      omega
    dsimp only
    rw [Function.update_of_ne hne]
    exact howned
  atMostThree := hinv.atMostThree
  polled := hinv.polled
  seenIn := hinv.seenIn
  seenHup := hinv.seenHup
  accurate h := by
    dsimp only at h
    rw [Function.update_of_ne (Ne.symm hf)] at h
    exact hinv.accurate h
  late := by
    dsimp only
    rw [Function.update_of_ne (Ne.symm hf)]
    exact hinv.late
  exitLast := by
    dsimp only
    rw [Function.update_of_ne (Ne.symm hf)]
    exact hinv.exitLast

/-- A read gives nothing when nothing is there. -/
theorem readCount_eq_zero (p : Pipe) (f : Fd) (c : Choice) : p.readCount f c = 0 ↔ p.buffer = [] := by
  unfold Pipe.readCount bufferSize
  rw [← List.length_eq_zero_iff]
  split <;> omega

/-- The state after a slot's data was forwarded. -/
def State.forward (s : State) (i count : Nat) (f : Fd) : State :=
  { s.setPipe f { s.pipe f with buffer := (s.pipe f).buffer.drop count } with
    log := s.log ++ [.ack f ((s.pipe f).buffer.take count)]
    pc := .slot (i + 1) true }

/-- Forwarding what was read keeps the invariant. -/
theorem inv_forward (hinv : Inv s) (hpc : s.pc = .slot i msgSent) (hslot : s.pollfds[i]? = some slot)
    (hfd : slot.fd ≠ .sta) (count : Nat) : Inv (s.forward i count slot.fd) := by
  have hidx := hinv.idx_turn hpc hslot
  have hsta : s.idx .sta ≠ some i := fun h => hfd (hinv.idx_inj hslot h).symm
  have hpipe : ∀ g, g ≠ slot.fd → (s.forward i count slot.fd).pipe g = s.pipe g :=
    fun g hg => Function.update_of_ne hg _ _
  have hself : (s.forward i count slot.fd).pipe slot.fd =
      { s.pipe slot.fd with buffer := (s.pipe slot.fd).buffer.drop count } :=
    Function.update_self ..
  have hlog : codeReplies (s.forward i count slot.fd).log = codeReplies s.log := by
    simp [State.forward, codeReplies_append, hfd]
  -- the slots still to come belong to other pipes
  have hother : ∀ j slot', s.pollfds[j]? = some slot' → i + 1 ≤ j →
      (s.forward i count slot.fd).pipe slot'.fd = s.pipe slot'.fd := by
    intro j slot' hj hle
    refine hpipe _ ?_
    intro heq
    have howned := hinv.owned j slot' hj (by rw [hpc]; show i ≤ j; omega)
    rw [heq, hidx] at howned
    have hji := Option.some.inj howned
    omega
  have hclosed : ∀ g, ((s.forward i count slot.fd).pipe g).closed = (s.pipe g).closed := by
    intro g
    by_cases hg : g = slot.fd
    · rw [hg, hself]
    · rw [hpipe g hg]
  have hwritten : ∀ g, ((s.forward i count slot.fd).pipe g).written = (s.pipe g).written := by
    intro g
    by_cases hg : g = slot.fd
    · rw [hg, hself]
    · rw [hpipe g hg]
  refine ⟨?_, ?_, ?_, ?_, ?_, ?_, ?_, hinv.right, ?_, hinv.atMostThree, ?_, ?_, ?_, fun _ => trivial,
    ?_, ?_⟩
  · intro g
    have hold := hinv.sent g
    by_cases hg : g = slot.fd
    · subst hg
      rw [hself]
      simpa [State.forward, forwarded_append] using hold
    · rw [hpipe g hg]
      simpa [State.forward, forwarded_append, Ne.symm hg] using hold
  · intro hexited g hg
    rw [hclosed]
    exact hinv.exitCloses hexited g hg
  · rw [hclosed]
    exact hinv.staOpen
  · rw [hwritten]
    exact hinv.staWritten
  · rw [hlog]
    exact hinv.unreplied
  · rw [hlog, hwritten]
    exact hinv.replied
  · intro g hg hnone
    have hne : g ≠ slot.fd := by
      rintro rfl
      have hsome : s.idx slot.fd = none := hnone
      rw [hidx] at hsome
      exact absurd hsome (by simp)
    rw [hpipe g hne]
    exact hinv.gone g hg hnone
  · intro j slot' hj hturn
    have hle : i + 1 ≤ j := hturn
    exact hinv.owned j slot' hj (by rw [hpc]; show i ≤ j; omega)
  · intro n h
    simp [State.forward] at h
  · intro j slot' hj hreported hin
    have hle : i + 1 ≤ j := hreported
    rw [hother j slot' hj hle]
    exact hinv.seenIn j slot' hj (by rw [hpc]; show i ≤ j; omega) hin
  · intro j slot' hj hreported hin hhup
    have hle : i + 1 ≤ j := hreported
    rw [hother j slot' hj hle]
    exact hinv.seenHup j slot' hj (by rw [hpc]; show i ≤ j; omega) hin hhup
  · intro k m j slot' h hlt hj hslot'
    obtain ⟨rfl, -⟩ : i + 1 = k ∧ true = m := by simpa [State.forward] using h
    have hne : j ≠ i := by
      rintro rfl
      exact hsta hj
    exact hinv.late i msgSent j slot' hpc (by omega) hj hslot'
  · rw [if_neg (by simp [State.forward])]
    simpa [State.forward] using hinv.not_done hpc

/-- Until it was replied, the exit code is whole in its pipe. -/
theorem Inv.sta_unread (hinv : Inv s) (hsta : s.idx .sta ≠ none) :
    (s.pipe .sta).buffer = (s.pipe .sta).written := by
  have hsent := hinv.sent .sta
  rw [forwarded_sta, hinv.unreplied hsta] at hsent
  simpa using hsent

/-- The status is read whole. -/
theorem Inv.sta_count (hinv : Inv s) (hsta : s.idx .sta ≠ none) (c : Choice) :
    (s.pipe .sta).readCount .sta c = (s.pipe .sta).buffer.length := by
  unfold Pipe.readCount bufferSize
  rw [if_pos rfl, hinv.sta_unread hsta]
  rcases hinv.staWritten with hnil | ⟨code, -, hcode⟩
  · rw [hnil]
    rfl
  · rw [hcode]
    rfl

/-- The exit code is replied, whole, and its pipe polled no more. -/
theorem inv_reply (hinv : Inv s) (hpc : s.pc = .slot i msgSent) (hslot : s.pollfds[i]? = some slot)
    (hfd : slot.fd = .sta) (hne : (s.pipe .sta).buffer ≠ []) :
    Inv { s.forward i (s.pipe .sta).buffer.length .sta with
      idx := Function.update s.idx .sta none
      timeout := true } := by
  have hidx : s.idx .sta = some i := by
    rw [← hfd]
    exact hinv.idx_turn hpc hslot
  have hunread := hinv.sta_unread (by rw [hidx]; simp)
  have hreplies := hinv.unreplied (by rw [hidx]; simp)
  set s' : State := { s.forward i (s.pipe .sta).buffer.length .sta with
    idx := Function.update s.idx .sta none
    timeout := true } with hs'
  have hpipe : ∀ g, g ≠ .sta → s'.pipe g = s.pipe g :=
    fun g hg => Function.update_of_ne hg _ _
  have hself : s'.pipe .sta = { s.pipe .sta with buffer := [] } := by
    simp [hs', State.forward, State.setPipe]
  have hlog : s'.log = s.log ++ [.ack .sta (s.pipe .sta).written] := by
    simp [hs', State.forward, hunread]
  have hidx' : ∀ g, g ≠ .sta → s'.idx g = s.idx g := fun g hg => Function.update_of_ne hg _ _
  have hidxsta : s'.idx .sta = none := by
    simp [hs']
  -- the slots still to come belong to the streams
  have hother : ∀ j slot', s.pollfds[j]? = some slot' → i + 1 ≤ j → slot'.fd ≠ .sta := by
    intro j slot' hj hle heq
    have howned := hinv.owned j slot' hj (by rw [hpc]; show i ≤ j; omega)
    rw [heq, hidx] at howned
    have hji := Option.some.inj howned
    omega
  refine ⟨?_, ?_, ?_, ?_, ?_, ?_, ?_, ?_, ?_, hinv.atMostThree, ?_, ?_, ?_, fun _ => trivial, ?_, ?_⟩
  · intro g
    by_cases hg : g = .sta
    · subst hg
      rw [hself, hlog, forwarded_append, forwarded_sta, hreplies]
      simp
    · rw [hpipe g hg, hlog, forwarded_append, forwarded_ack, if_neg (Ne.symm hg), List.append_nil]
      exact hinv.sent g
  · intro hexited g hg
    rw [hpipe g hg]
    exact hinv.exitCloses hexited g hg
  · rw [hself]
    exact hinv.staOpen
  · rw [hself]
    exact hinv.staWritten
  · intro h
    exact absurd hidxsta h
  · intro _
    rw [hself, hlog, codeReplies_append, hreplies]
    exact ⟨by simp, hunread ▸ hne⟩
  · intro g hg h
    rw [hidx' g hg] at h
    rw [hpipe g hg]
    exact hinv.gone g hg h
  · intro g j h
    by_cases hg : g = .sta
    · subst hg
      rw [hidxsta] at h
      exact absurd h (by simp)
    · rw [hidx' g hg] at h
      exact hinv.right g j h
  · intro j slot' hj hturn
    have hle : i + 1 ≤ j := hturn
    rw [hidx' _ (hother j slot' hj hle)]
    exact hinv.owned j slot' hj (by rw [hpc]; show i ≤ j; omega)
  · intro n h
    simp [hs', State.forward] at h
  · intro j slot' hj hreported hin
    have hle : i + 1 ≤ j := hreported
    rw [hpipe _ (hother j slot' hj hle)]
    exact hinv.seenIn j slot' hj (by rw [hpc]; show i ≤ j; omega) hin
  · intro j slot' hj hreported hin hhup
    have hle : i + 1 ≤ j := hreported
    rw [hpipe _ (hother j slot' hj hle)]
    exact hinv.seenHup j slot' hj (by rw [hpc]; show i ≤ j; omega) hin hhup
  · intro k m j slot' _ _ h
    rw [hidxsta] at h
    exact absurd h (by simp)
  · rw [if_neg (by simp [hs', State.forward]), hlog]
    simpa using hinv.not_done hpc

/-- The turn of a slot keeps the invariant. -/
theorem inv_handleSlot (hinv : Inv s) (hpc : s.pc = .slot i msgSent) (hslot : s.pollfds[i]? = some slot)
    (c : Choice) : Inv (s.handleSlot c i msgSent slot) := by
  have hidx := hinv.idx_turn hpc hslot
  have howner := owner_eq hinv.right hslot hidx
  have hreported : s.pc.reported i := by
    rw [hpc]
    exact Nat.le_refl i
  unfold State.handleSlot
  split
  next hin =>
    dsimp only
    split
    next hcount =>
      -- the end of the pipe was called readable
      have hempty := (readCount_eq_zero _ _ _).mp hcount
      refine inv_advance hinv hpc hslot (fun _ _ => hempty) fun hsta => ?_
      have hfd := hinv.idx_inj hslot hsta
      rcases hinv.seenIn i slot hslot hreported hin with hne | hclosed
      · exact absurd hempty hne
      · rw [← hfd, hinv.staOpen] at hclosed
        exact absurd hclosed (by simp)
    next hcount =>
      rw [howner]
      dsimp only
      split
      next hsta =>
        have hfd := hinv.idx_inj hslot hsta
        have hne : (s.pipe .sta).buffer ≠ [] := by
          intro hnil
          rw [hfd] at hnil
          exact hcount ((readCount_eq_zero _ _ _).mpr hnil)
        have hreply := inv_reply hinv hpc hslot hfd.symm hne
        rw [← hinv.sta_count (by rw [hsta]; simp) c] at hreply
        rw [← hfd]
        exact hreply
      next hsta =>
        have hfd : slot.fd ≠ .sta := by
          intro hfd
          rw [hfd] at hidx
          exact hsta hidx
        exact inv_forward hinv hpc hslot hfd _
  next hin =>
    have hin : slot.revents.pollIn = false := by simpa using hin
    split
    next hhup =>
      obtain ⟨hclosed, hempty⟩ := hinv.seenHup i slot hslot hreported hin hhup
      have hfd : slot.fd ≠ .sta := by
        intro hfd
        rw [hfd, hinv.staOpen] at hclosed
        exact absurd hclosed (by simp)
      rw [howner]
      have hadvance := inv_advance hinv hpc hslot (fun _ _ => hempty) (fun _ => hin)
      exact inv_giveUp hadvance rfl hfd hidx hclosed hempty
    next hhup =>
      refine inv_advance hinv hpc hslot (fun hsta hm => ?_) (fun _ => hin)
      have hold := hinv.accurate hsta
      unfold State.Accurate at hold
      rw [hpc, hm] at hold
      exact hold i slot hslot (.inr hin)

/-- Behind the last turn, a cycle is set up, or all is over. -/
theorem inv_nextCycle (hinv : Inv s) (hpc : s.pc = .slot i msgSent) (hend : s.pollfds[i]? = none) :
    Inv (s.nextCycle msgSent) := by
  obtain ⟨hright, hopen, hlength, hnil⟩ := setupPollfds_spec s.idx
  unfold State.nextCycle
  dsimp only
  split
  next hnext =>
    exact {
      sent := hinv.sent
      exitCloses := hinv.exitCloses
      staOpen := hinv.staOpen
      staWritten := hinv.staWritten
      unreplied := fun h => hinv.unreplied (fun hs => h ((hopen .sta).mpr hs))
      replied := fun h => hinv.replied ((hopen .sta).mp h)
      gone := fun f hf h => hinv.gone f hf ((hopen f).mp h)
      right := hright.right
      owned := fun j slot hj _ => hright.owned j slot hj
      atMostThree := hlength
      polled := fun _ _ => hnext.1
      seenIn := fun j _ _ h => absurd h (Nat.not_lt_zero j)
      seenHup := fun j _ _ h => absurd h (Nat.not_lt_zero j)
      accurate := fun _ j _ h => absurd h (Nat.not_lt_zero j)
      late := fun _ _ _ _ h => by simp at h
      exitLast := by
        rw [if_neg (by simp)]
        exact hinv.not_done hpc }
  next hstop =>
    have hsta : s.idx .sta = none := by
      rw [← hopen]
      by_cases hempty : (setupPollfds s.idx).1 = []
      · exact (hopen .sta).mpr (hnil hempty .sta)
      · by_contra hsome
        exact hstop ⟨hempty, .inr hsome⟩
    have hdrained : ∀ f, (s.pipe f).buffer = [] := by
      intro f
      by_cases hf : f = .sta
      · rw [hf]
        exact hinv.sta_empty hsta
      cases hidx : s.idx f with
      | none => exact (hinv.gone f hf hidx).2
      | some j =>
        -- the stream still has a slot, so nothing was sent in this cycle
        have hm : msgSent = false := by
          by_contra hm
          refine hstop ⟨fun hempty => ?_, .inl (by simpa using hm)⟩
          rw [hnil hempty f] at hidx
          exact absurd hidx (by simp)
        have hfd := hinv.right f j hidx
        obtain ⟨slot, hslot, rfl⟩ := Option.map_eq_some_iff.mp hfd
        have hold := hinv.accurate hsta
        unfold State.Accurate at hold
        rw [hpc, hm] at hold
        exact hold j slot hslot (.inl (slot_lt hslot hend))
    exact {
      sent := fun f => by
        rw [forwarded_append, forwarded_exit, List.append_nil]
        exact hinv.sent f
      exitCloses := hinv.exitCloses
      staOpen := hinv.staOpen
      staWritten := hinv.staWritten
      unreplied := fun h => absurd ((hopen .sta).mpr hsta) h
      replied := fun _ => by
        rw [codeReplies_append, codeReplies_exit, List.append_nil]
        exact hinv.replied hsta
      gone := fun f hf h => hinv.gone f hf ((hopen f).mp h)
      right := hright.right
      owned := fun j slot hj _ => hright.owned j slot hj
      atMostThree := hlength
      polled := fun _ h => by simp at h
      seenIn := fun _ _ _ h => h.elim
      seenHup := fun _ _ _ h => h.elim
      accurate := fun _ => trivial
      late := fun _ _ _ _ h => by simp at h
      exitLast := by
        rw [if_pos rfl]
        exact ⟨⟨s.log, rfl, hinv.not_done hpc⟩, (hopen .sta).mpr hsta, hdrained⟩ }

end Turn

/-! ## Every step -/

/-- Every step of the daemon keeps the invariant. -/
theorem Inv.daemon {s : State} (hinv : Inv s) (c : Choice) : Inv (s.daemon c) := by
  unfold State.daemon
  split
  next n hpc =>
    split
    next slot hslot => exact inv_look hinv hpc hslot
    next hend => exact inv_pollReturn hinv hpc hend
  next i msgSent hpc =>
    split
    next slot hslot => exact inv_handleSlot hinv hpc hslot c
    next hend => exact inv_nextCycle hinv hpc hend
  next => exact hinv

/-- Every event keeps the invariant. -/
theorem Inv.step {s : State} (hinv : Inv s) (e : Event) : Inv (s.step e) := by
  cases e with
  | write f data =>
    simp only [State.step]
    split
    next h => exact hinv.grown (grown_write hinv data h.1 h.2)
    next => exact hinv
  | close f =>
    simp only [State.step]
    split
    next h => exact hinv.grown (grown_close hinv h)
    next => exact hinv
  | exit code =>
    simp only [State.step]
    split
    next h =>
      have hout := hinv.grown (grown_close hinv (f := .out) (by simp))
      have herr := hout.grown (grown_close hout (f := .err) (by simp))
      refine herr.grown (grown_exit herr code h fun f hf => ?_)
      cases f <;> simp_all [State.close, State.setPipe, Function.update]
    next => exact hinv
  | status =>
    simp only [State.step]
    split
    next code hexited =>
      split
      next h => exact hinv.grown (grown_status hinv hexited h)
      next => exact hinv
    next => exact hinv
  | daemon c => exact hinv.daemon c

/-- The invariant holds after every run. -/
theorem inv_run (events : List Event) : Inv (State.init.run events) := by
  have hrun : ∀ (s : State), Inv s → Inv (s.run events) := by
    intro s hinv
    unfold State.run
    induction events generalizing s with
    | nil => exact hinv
    | cons e events ih => exact ih _ (hinv.step e)
  exact hrun _ inv_init

end AndroidLearn.HtcIf
