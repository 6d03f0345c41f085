import AndroidLearn.Iotty.Redirect

/-!
# The end of a session

How `close_device` of `iotty.c` comes to its end. The break of a poll is a byte in a pipe,
and lost on a poll that is not open yet. Nobody is stuck for it: who has not opened its
poll finds the socket closed.

A measure on the places of the two threads goes down with each of their turns
(`goReader_left`, `goWriter_left`), unless the thread is held where a break does not reach
it (`State.Held`). The steps are counted by `turns` of `Lib.Run`, from the moment when the
service waits for the reader (`Waits`).

Theorem: `close_ends`. However the threads interleave and the calls fail, they come to
their end when the service waits for them: 15 turns of the reader and 5 of the writer are
enough, and a turn is lost on nothing but what is named. The exceptions are a reader that
is in `tty_read_line` by then, which `Breakable` excludes, and a thread that is in a
`write` that nobody takes (`readerTaken`, `writerTaken`). A break wakes neither: a client
that stops to read holds the reader, and with it the service.
-/

namespace AndroidLearn.Iotty

open Run

/-- The turns that the reader still takes at most. -/
def Reader.left : Reader → Nat
  | .opening => 15
  | .accepting => 14
  | .reading => 13
  | .writing _ | .creating => 12
  | .waiting => 11
  | .parting => 10
  | .telling => 9
  | .freeing => 8
  | .clearing => 7
  | .closingPoll => 6
  | .shutting => 5
  | .closingSocket => 4
  | .breaking => 3
  | .joining => 2

/-- The steps the reader has left. -/
def State.left (s : State) : Nat := s.reader.elim 0 Reader.left

/-- The turns that the writer still takes at most, when the socket is closed. -/
def Writer.left : Writer → Nat
  | .opening => 5
  | .reading | .writing _ => 4
  | .waiting => 3
  | .closing => 1

/-- The service waits for the reader to end. -/
def Waits (s : State) (_ : Event) : Prop := s.main = .joining

instance (s : State) (e : Event) : Decidable (Waits s e) := inferInstanceAs (Decidable (_ = _))

/-- It writes to the client. -/
def Reader.writes : Reader → Bool
  | .writing _ | .telling => true
  | _ => false

/-- It writes to the device. -/
def Writer.writes : Writer → Bool
  | .writing _ => true
  | _ => false

/-- The reader does not go on: it is in `tty_read_line` or in a `write`, or waits for the
writer. -/
def State.Held (s : State) : Prop :=
  s.reader = none ∨ s.reader = some .reading ∧ s.mode = .canonical ∨
    (∃ r, s.reader = some r ∧ r.writes = true ∧ s.socketFull = true) ∨
    s.reader = some .joining ∧ s.writer ≠ none

/-- What the thread is to write is taken, if it writes. -/
def State.readerTaken (s : State) (r : Reader) : Prop := r.writes = true → s.socketFull = false

/-- What the writer has in hand is taken, so that it need not wait. -/
def State.writerTaken (s : State) (w : Writer) : Prop := w.writes = true → s.deviceFull = false

/-- The reader is not in `tty_read_line`, where no break is seen. -/
def State.Breakable (s : State) : Prop := s.mode = .canonical → s.reader ≠ some .reading

instance (s : State) : Decidable s.Breakable := inferInstanceAs (Decidable (_ → _))

section Ends

variable {s : State} {result : Option Nat} {r : Reader} {w : Writer}

/-- A step of the writer leaves the reader where it is. -/
theorem goWriter_reader : (s.goWriter result).reader = s.reader := by
  unfold State.goWriter
  repeat' split
  all_goals rfl

/-- Only its own steps change where the reader is, while it is awaited. -/
theorem reader_step (hm : s.main = .joining) (e : Event) :
    (s.step e).reader = s.reader ∨ ∃ result, e = .reader result := by
  cases e with
  | reader result => exact .inr ⟨result, rfl⟩
  | writer result => exact .inl goWriter_reader
  | main set =>
    left
    rw [State.step, State.goMain, hm]
    dsimp only
    split <;> rfl
  | clientEnds | deviceEnds | socketFull | deviceFull => exact .inl rfl
  | send | deliver | setMode | setType | opens | close | disconnect =>
    left
    simp only [State.step, hm]
    split <;> first | rfl | simp_all

/-- The reader goes on, and has less left. -/
theorem left_of (hr : s.reader = some r) (r' : Reader) (hlt : r'.left < r.left) :
    r'.left < s.left := by
  rw [State.left, hr]
  exact hlt

theorem left_pos (hr : s.reader = some r) : 0 < s.left := by
  rw [State.left, hr]
  cases r <;> exact Nat.succ_pos _

/-- There are at most fifteen. -/
theorem left_le (s : State) : s.left ≤ 15 := by
  rw [State.left]
  cases s.reader with
  | none => exact Nat.zero_le _
  | some r => cases r <;> simp [Reader.left]

/-- Behind a read the reader has less left. -/
theorem left_redirect (hr : s.reader = some .reading) (buf : Bytes) :
    (if buf = [] then Reader.waiting else Reader.writing buf).left < s.left := by
  refine left_of hr _ ?_
  split <;> simp [Reader.left]

/-- The poll has seen something to be read. -/
theorem readRaw_left (hr : s.reader = some .reading) (hready : s.input ≠ [] ∨ s.hungUp = true) :
    (s.readRaw result).left < s.left := by
  unfold State.readRaw
  split
  · next hnone =>
    unfold State.readDevice at hnone
    split at hnone
    · exact nomatch hnone
    · rcases hready with hready | hready
      · rw [if_pos hready] at hnone
        cases hnone
      · rw [if_pos hready] at hnone
        split at hnone <;> cases hnone
  · exact left_of hr .parting (by decide)
  · exact left_redirect hr _

theorem readLine_left (hr : s.reader = some .reading) (fd : Nat) :
    (s.readLine fd result).reader = s.reader ∨ (s.readLine fd result).left < s.left := by
  unfold State.readLine
  dsimp only
  split
  · exact .inl rfl
  · exact .inr (left_of hr .parting (by decide))
  · exact .inr (left_redirect hr _)

/-- The break is in the poll of the reader. -/
theorem State.Control.breaks (hc : s.Control) (hm : s.main = .joining)
    (hr : s.reader = some .waiting) : ∃ n, s.pollRead = some (n + 1) := by
  cases hp : s.pollRead with
  | none => exact absurd hp (hc.polls _ hr rfl)
  | some n =>
    cases n with
    | zero => exact absurd hp (hc.woken hm _ hr rfl)
    | succ n => exact ⟨n, rfl⟩

/-- Each step of the reader leaves it less, unless it is held by a write. -/
theorem goReader_left (hc : s.Control) (hm : s.main = .joining) :
    (s.goReader result).reader = s.reader ∧ s.Held ∨ (s.goReader result).left < s.left := by
  unfold State.goReader
  split
  · next hnone => exact .inl ⟨rfl, .inl hnone⟩
  · next hr =>
    split
    · exact .inr (left_pos hr)
    · exact .inr (left_of hr .accepting (by decide))
  · next hr =>
    rw [if_neg (by simp [hc.server (.inr hm)])]
    exact .inr (left_pos hr)
  · next hr => exact .inr (left_of hr .waiting (by decide))
  · next hr =>
    obtain ⟨n, hbreak⟩ := hc.breaks hm hr
    rw [hbreak]
    split
    · exact .inr (left_of hr .parting (by decide))
    · exact .inr (left_of hr .parting (by decide))
    · next hpoll => exact absurd rfl (hpoll n)
  · next hr =>
    split
    · exact .inr (left_of hr .parting (by decide))
    · next hraw _ => exact .inr (readRaw_left hr (hc.ready hr hraw))
    · next hcanonical _ =>
      exact (readLine_left hr _).imp_left fun heq => ⟨heq, .inr (.inl ⟨hr, hcanonical⟩)⟩
  · next buffer hr =>
    split
    · exact .inr (left_of hr .parting (by simp [Reader.left]))
    · split
      · next hfull => exact .inl ⟨rfl, .inr (.inr (.inl ⟨_, hr, rfl, hfull⟩))⟩
      · exact .inr (left_of hr .waiting (by simp [Reader.left]))
  · next hr =>
    refine .inr (left_of hr _ ?_)
    split <;> decide
  · next hr =>
    split
    · split
      · next hfull => exact .inl ⟨rfl, .inr (.inr (.inl ⟨_, hr, rfl, hfull.1⟩))⟩
      · exact .inr (left_of hr .freeing (by decide))
    all_goals exact .inr (left_of hr .freeing (by decide))
  · next hr =>
    split
    all_goals exact .inr (left_of hr .clearing (by decide))
  · next hr => exact .inr (left_of hr .closingPoll (by decide))
  · next hr => exact .inr (left_of hr .shutting (by decide))
  · next hr => exact .inr (left_of hr .closingSocket (by decide))
  · next hr => exact .inr (left_of hr .breaking (by decide))
  · next hr => exact .inr (left_of hr .joining (by decide))
  · next hr =>
    split
    · exact .inr (left_pos hr)
    · next hw => exact .inl ⟨rfl, .inr (.inr (.inr ⟨hr, hw⟩))⟩

/-- On a socket that is closed, the writer waits for nothing but the device. -/
theorem goWriter_left (hx : s.socket = .closed) (hw : s.writer = some w) :
    (s.goWriter result).writer = s.writer ∧ w.writes = true ∧ s.deviceFull = true ∨
      (s.goWriter result).writer.elim 0 Writer.left < s.writer.elim 0 Writer.left := by
  rw [hw]
  cases w with
  | opening =>
    right
    simp only [State.goWriter, hw]
    split <;> simp [Writer.left]
  | waiting =>
    right
    simp only [State.goWriter, hw, hx]
    split <;> simp [Writer.left]
  | reading =>
    right
    simp only [State.goWriter, hw, hx]
    split <;> simp [Writer.left]
  | writing buffer =>
    simp only [State.goWriter, hw]
    split
    · split
      · next hfull => exact .inl ⟨hw, rfl, hfull⟩
      · exact .inr (by simp [Writer.left])
    · exact .inr (by simp [Writer.left])
  | closing => exact .inr (by simp [State.goWriter, hw, Writer.left])

/-- The writer goes on alone, as the reader waits for it or is gone. -/
theorem writer_step (hm : s.main = .joining) (hr : s.reader = none ∨ s.reader = some .joining)
    (e : Event) : ((s.step e).reader = none ∨ (s.step e).reader = some .joining) ∧
      ((s.step e).writer = s.writer ∨ ∃ result, e = .writer result) := by
  cases e with
  | writer result =>
    refine ⟨?_, .inr ⟨result, rfl⟩⟩
    rw [State.step, goWriter_reader]
    exact hr
  | reader result =>
    rcases hr with heq | heq <;> simp only [State.step, State.goReader, heq]
    · exact ⟨.inl trivial, .inl trivial⟩
    · split
      · exact ⟨.inl rfl, .inl rfl⟩
      · exact ⟨.inr heq, .inl rfl⟩
  | main set =>
    rw [State.step, State.goMain, hm]
    dsimp only
    split <;> exact ⟨hr, .inl rfl⟩
  | clientEnds | deviceEnds | socketFull | deviceFull => exact ⟨hr, .inl rfl⟩
  | send | deliver | setMode | setType | opens | close | disconnect =>
    simp only [State.step, hm]
    split <;> first | exact ⟨hr, .inl rfl⟩ | simp_all

/-- With the reader gone the socket is closed. -/
theorem closed_of (hc : s.Control) (hr : s.reader = none ∨ s.reader = some .joining) :
    s.socket = .closed := by
  rw [hc.socket]
  rcases hr with heq | heq <;> rw [heq] <;> rfl

/-- The turns of the writer, once the reader waits for it. -/
theorem writer_turns (hc : s.Control) (hr : s.reader = none ∨ s.reader = some .joining)
    {more : List Event} (hmore : AllSteps State.step Waits s more) :
    turns State.step State.writer s more ≤ s.writer.elim 0 Writer.left := by
  refine AllSteps.turns_le (I := fun s => s.Control ∧ (s.reader = none ∨ s.reader = some .joining))
    (fun w : Option Writer => w.elim 0 Writer.left) (fun s e hs hm => ?_) ⟨hc, hr⟩ hmore
  obtain ⟨hr', hturn⟩ := writer_step hm hs.2 e
  refine ⟨⟨hs.1.step e, hr'⟩, ?_⟩
  rcases hturn with heq | ⟨result, rfl⟩
  · exact .inl heq
  · cases hw : s.writer with
    | none =>
      left
      simp only [State.step, State.goWriter, hw]
    | some w =>
      rw [← hw]
      exact (goWriter_left (closed_of hs.1 hs.2) hw).imp_left And.left

/-- The turns of the reader. -/
theorem reader_turns (hc : s.Control) {more : List Event}
    (hmore : AllSteps State.step Waits s more) :
    turns State.step State.reader s more ≤ s.left := by
  refine AllSteps.turns_le (I := State.Control) (fun r : Option Reader => r.elim 0 Reader.left)
    (fun s e hs hm => ⟨hs.step e, ?_⟩) hc hmore
  rcases reader_step hm e with heq | ⟨result, rfl⟩
  · exact .inl heq
  · exact (goReader_left hs hm).imp_left And.left

/-- Behind the break the device is not read again. -/
theorem goReader_reading (hc : s.Control) (hm : s.main = .joining)
    (h : (s.goReader result).reader = some .reading) : s.reader = some .reading := by
  cases hr : s.reader with
  | none => simp [State.goReader, hr] at h
  | some r =>
    cases r with
    | reading => rfl
    | waiting =>
      -- the break is seen before the data
      obtain ⟨n, hbreak⟩ := hc.breaks hm hr
      simp only [State.goReader, hr, hbreak] at h
      cases result <;> cases h
    | _ =>
      simp only [State.goReader, hr] at h
      repeat' split at h
      all_goals simp_all

/-- While the session is closed its mode does not change. -/
theorem mode_step (hm : s.main = .joining) (e : Event) : (s.step e).mode = s.mode := by
  cases e with
  | reader result =>
    simp only [State.step]
    unfold State.goReader State.readRaw State.readLine
    dsimp only
    repeat' split
    all_goals rfl
  | writer result =>
    simp only [State.step]
    unfold State.goWriter
    repeat' split
    all_goals rfl
  | main set =>
    simp only [State.step, State.goMain, hm]
    split <;> rfl
  | clientEnds | deviceEnds | socketFull | deviceFull => rfl
  | send | deliver | setMode | setType | opens | close | disconnect =>
    simp only [State.step, hm]
    split <;> first | rfl | simp_all

/-- What can be broken off stays so. -/
theorem State.Breakable.step (hb : s.Breakable) (hc : s.Control) (hm : s.main = .joining)
    (e : Event) : (s.step e).Breakable := by
  rw [State.Breakable, mode_step hm e]
  intro hmode
  rcases reader_step hm e with heq | ⟨result, rfl⟩
  · rw [heq]
    exact hb hmode
  · exact fun hr => hb hmode (goReader_reading hc hm hr)

end Ends

/-- The control holds after every run. -/
theorem control_run (events : List Event) : (events.foldl State.step .init).Control := by
  induction events using List.reverseRecOn with
  | nil => exact control_init
  | append_singleton events e ih =>
    rw [List.foldl_append]
    exact ih.step e

/-- Once the service waits for the reader, both threads take a bounded number of turns, and
neither is ever stuck but in what no break of a poll wakes. Unless the reader is in
`tty_read_line`, writes to a client that takes nothing, or waits for the writer, each of its steps
takes it further; and while it waits, each step of the writer does unless that writes to a device
that takes nothing. When the reader is through, nothing of the session is left and the service
goes on. -/
theorem close_ends (events more : List Event)
    (hbreak : (events.foldl State.step .init).Breakable)
    (hmore : AllSteps State.step Waits (events.foldl State.step .init) more)
    (hwaits : ((events ++ more).foldl State.step .init).main = .joining) :
    let s := (events ++ more).foldl State.step .init
    turns State.step State.reader (events.foldl State.step .init) more ≤ 15 ∧
      (∀ r, s.reader = some r → s.readerTaken r → (r = .joining → s.writer = none) →
        ∀ result, (s.step (.reader result)).reader ≠ some r) ∧
      (s.reader = some .joining →
        (∀ w, s.writer = some w → s.writerTaken w →
          ∀ result, (s.step (.writer result)).writer ≠ some w) ∧
        ∀ later, AllSteps State.step Waits s later →
          turns State.step State.writer s later ≤ 5) ∧
      (s.reader = none → s.writer = none ∧ s.socket = .closed ∧ s.pollWrite = none ∧
        ∀ set, (s.step (.main set)).main = .closingDevice) := by
  intro s
  have hs : s = more.foldl State.step (events.foldl State.step .init) := List.foldl_append
  have hm : s.main = .joining := hwaits
  have hc : s.Control := control_run (events ++ more)
  have hb : s.Control ∧ s.Breakable := by
    rw [hs]
    exact AllSteps.invariant (I := fun s => s.Control ∧ s.Breakable)
      (fun s e h hm => ⟨h.1.step e, h.2.step h.1 hm e⟩) ⟨control_run events, hbreak⟩ hmore
  refine ⟨(reader_turns (control_run events) hmore).trans (left_le _),
    fun r hr htaken hw result heq => ?_, fun hr => ⟨fun w hw htaken result heq => ?_,
    fun later hlater => ?_⟩, fun hnone => ?_⟩
  · rcases @goReader_left s result hc hm with ⟨-, hheld⟩ | hlt
    · rcases hheld with hnone | ⟨hreading, hmode⟩ | ⟨r', hr', hwrites, hfull⟩ | ⟨hjoining, hne⟩
      · exact nomatch hr.symm.trans hnone
      · exact hb.2 hmode hreading
      · obtain rfl := Option.some.inj (hr.symm.trans hr')
        exact Bool.false_ne_true ((htaken hwrites).symm.trans hfull)
      · exact hne (hw (Option.some.inj (hr.symm.trans hjoining)))
    · have hsame : (s.goReader result).left = s.left := by
        rw [State.left, State.left, hr]
        exact congrArg (fun r : Option Reader => r.elim 0 Reader.left) heq
      exact absurd hlt (hsame ▸ Nat.lt_irrefl _)
  · rcases @goWriter_left s result w (closed_of hc (.inr hr)) hw with ⟨-, hwrites, hfull⟩ | hlt
    · exact Bool.false_ne_true ((htaken hwrites).symm.trans hfull)
    · have hsame : (s.goWriter result).writer = s.writer := heq.trans hw.symm
      exact absurd hlt (hsame ▸ Nat.lt_irrefl _)
  · refine (writer_turns hc (.inr hr) hlater).trans ?_
    cases s.writer with
    | none => exact Nat.zero_le _
    | some w => cases w <;> simp [Writer.left]
  · have hwriter : s.writer = none := by
      by_contra hne
      obtain ⟨r, hr, -⟩ := hc.writer hne
      exact nomatch hnone.symm.trans hr
    refine ⟨hwriter, closed_of hc (.inl hnone), hc.idle (.inl hwriter), fun set => ?_⟩
    simp only [State.step, State.goMain, hm, hnone, if_true]

/-- The client takes nothing for a while; the reader waits in its `write`, and then ends. -/
theorem close_ends_whileWriting :
    let more : List Event := [.socketFull true, .reader (some 1), .socketFull false] ++
      List.replicate 10 (.reader (some 1)) ++ [.writer (some 0), .writer none, .reader none]
    let s := (closeWhileWriting ++ more).foldl State.step .init
    s.farewell = some ([8], 1) ∧ s.writer = none ∧ s.socket = .closed ∧ s.pollWrite = none ∧
      ∀ set, (s.step (.main set)).main = .closingDevice :=
  ⟨by decide, (close_ends closeWhileWriting _ (by decide) (by decide) (by decide)).2.2.2
    (by decide)⟩

end AndroidLearn.Iotty
