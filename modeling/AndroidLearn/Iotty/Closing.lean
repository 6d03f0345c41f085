import AndroidLearn.Iotty.Session

/-!
# The string that the client is told

`closing` of `iotty.c` is a pointer of the service that the reader frees too. Nothing
guards it: the service sets it in `close_device` and then breaks the poll of the reader,
which writes the string to the client, frees it and clears the pointer at its end.

What is safe about it is a matter of the phases of the two (`Reader.phase`, `Main.late`):
while the reader may be at the pointer the service is waiting for it, and before that it
is the service's. `Main.Agrees` says what each place of the service goes with, and
`State.Tells` is the invariant with it. It has a lemma for each kind of step.

`State.Tells.step`: unless a device is opened while a string is left (`Fresh`), only one
of them has to do with the pointer at a time, and no string is read or freed that has been
freed. A string that was told is the one of the close under way.
-/

namespace AndroidLearn.Iotty

open Ttytool

/-- What the reader has to do with `closing`. -/
inductive Phase where
  | before
  | holding
  | clearing
  | past
  deriving DecidableEq, Repr

/-- How far the reader has got with its last word. -/
def Reader.phase : Reader → Phase
  | .telling | .freeing => .holding
  | .clearing => .clearing
  | .closingPoll | .shutting | .closingSocket | .breaking | .joining => .past
  | _ => .before

/-- The reader may read the device again. -/
def Reader.reads : Reader → Bool
  | .opening | .accepting | .creating | .waiting | .reading | .writing _ => true
  | _ => false

/-- A session that has ended is past it. -/
def State.phase (s : State) : Phase := s.reader.elim .past Reader.phase

/-- The reader is asked to end, and awaited. -/
def Main.late : Main → Bool
  | .shutting | .breaking | .joining => true
  | _ => false

/-- The string of the close under way, up to where it is set. -/
def Main.next : Main → Option Bytes
  | .testing next | .freeing next | .clearing next => next
  | .setting string => some string
  | _ => none

/-- What `closing` is where the two are: only one of them has to do with it. -/
def Main.Agrees : Main → Phase → Closing → Prop
  | .idle, .before, c | .testing _, .before, c => c = .null
  | .idle, .past, c | .testing _, .past, c | .closingDevice, .past, c => c ≠ .freed
  | .setting string, .before, c | .setting string, .past, c => c = .null ∧ string ≠ []
  | .freeing _, .past, c => ∃ string, c = .str string
  | .clearing _, .past, c => c = .freed
  | m, .before, c | m, .past, c => m.late = true ∧ c ≠ .freed
  | m, .holding, c => m.late = true ∧ ∃ string, c = .str string
  | m, .clearing, c => m.late = true ∧ c = .freed

/-- The invariant on the closing word. -/
structure State.Tells (s : State) : Prop where
  agrees : s.main.Agrees s.phase s.closing
  safe : s.broken = false
  asked : s.thread = true → ∀ string, s.main.next = some string → s.asked = told string
  string : s.thread = true → s.main.late = true →
    ∀ string, s.closing = .str string → s.asked = some string
  farewell : ∀ p, s.farewell = some p → s.asked = some p.1
  fresh : s.thread = true → s.main.late = false → s.main ≠ .closingDevice → s.farewell = none
  last : s.farewell ≠ none → ∀ r, s.reader = some r → r.reads = false

section Tells

variable {s : State} {result : Option Nat} {set : Bool} {m : Main} {p : Phase} {c : Closing}
  {r : Reader}

/-- A word that was never given is as good as past. -/
theorem Main.Agrees.ends (h : m.Agrees .before c) : m.Agrees .past c := by
  cases m with
  | idle | testing => exact fun heq => nomatch (Eq.symm heq).trans h
  | setting => exact h
  | freeing | clearing | closingDevice => exact absurd h.1 Bool.false_ne_true
  | shutting | breaking | joining => exact h

/-- The reader sees a string: the service has just set it. -/
theorem Main.Agrees.holds (h : m.Agrees .before c) (hc : c ≠ .null) : m.Agrees .holding c := by
  have hstr (hfreed : c ≠ .freed) : ∃ string, c = .str string := by
    cases c with
    | null => exact absurd rfl hc
    | str string => exact ⟨string, rfl⟩
    | freed => exact absurd rfl hfreed
  cases m with
  | idle | testing => exact absurd h hc
  | setting => exact absurd h.1 hc
  | freeing | clearing | closingDevice => exact absurd h.1 Bool.false_ne_true
  | shutting | breaking | joining => exact ⟨rfl, hstr h.2⟩

/-- While the reader has the word, the main thread waits for it. -/
theorem Main.Agrees.late (h : m.Agrees p c) (hp : p = .holding ∨ p = .clearing) :
    m.late = true := by
  rcases hp with rfl | rfl
  all_goals cases m <;> first | rfl | exact h.1

/-- The reader frees the string and forgets it. -/
theorem Main.Agrees.of_late (hm : m.late = true) :
    m.Agrees .clearing .freed ∧ m.Agrees .past .null := by
  cases m with
  | shutting | breaking | joining => exact ⟨⟨rfl, rfl⟩, rfl, nofun⟩
  | _ => exact absurd hm Bool.false_ne_true

theorem Main.Agrees.held (h : m.Agrees .holding c) : ∃ string, c = .str string := by
  cases m <;> exact h.2

/-- While the main thread looks at the word, the reader does not touch it. -/
theorem Main.Agrees.testing {next : Option Bytes} (h : (Main.testing next).Agrees p c) :
    p = .before ∧ c = .null ∨ p = .past ∧ c ≠ .freed := by
  cases p with
  | before => exact .inl ⟨rfl, h⟩
  | past => exact .inr ⟨rfl, h⟩
  | holding | clearing => exact absurd h.1 Bool.false_ne_true

/-- The word that is freed is one the reader is through with. -/
theorem Main.Agrees.freeing {next : Option Bytes} (h : (Main.freeing next).Agrees p c) :
    p = .past ∧ ∃ string, c = .str string := by
  cases p with
  | past => exact ⟨rfl, h⟩
  | before | holding | clearing => exact absurd h.1 Bool.false_ne_true

/-- The pointer that is cleared is that of a freed word. -/
theorem Main.Agrees.clearing {next : Option Bytes} (h : (Main.clearing next).Agrees p c) :
    p = .past ∧ c = .freed := by
  cases p with
  | past => exact ⟨rfl, h⟩
  | before | holding | clearing => exact absurd h.1 Bool.false_ne_true

/-- A word is given before the reader comes to it, or behind. -/
theorem Main.Agrees.setting {string : Bytes} (h : (Main.setting string).Agrees p c) :
    (p = .before ∨ p = .past) ∧ string ≠ [] := by
  cases p with
  | before => exact ⟨.inl rfl, h.2⟩
  | past => exact ⟨.inr rfl, h.2⟩
  | holding | clearing => exact absurd h.1 Bool.false_ne_true

/-- While the reader is awaited, nothing changes for it. -/
theorem Main.Agrees.awaits {m' : Main} (h : m.Agrees p c) (hm : m.late = true)
    (hm' : m'.late = true) : m'.Agrees p c := by
  have hlate : ∀ {m : Main}, m.late = true → (m.Agrees p c ↔ Main.joining.Agrees p c) := by
    intro m hm
    cases m <;> first | exact absurd hm Bool.false_ne_true | (cases p <;> exact Iff.rfl)
  exact (hlate hm').mpr ((hlate hm).mp h)

/-- The reader has returned, and the main thread goes on. -/
theorem Main.Agrees.awaited {m' : Main} (h : m.Agrees .past c) (hm : m.late = true)
    (hm' : m' = .closingDevice ∨ m' = .idle) : m'.Agrees .past c := by
  have hfreed : c ≠ .freed := by
    cases m <;> first | exact absurd hm Bool.false_ne_true | exact h.2
  rcases hm' with rfl | rfl <;> exact hfreed

/-- The service finds a string of an earlier close. -/
theorem Main.Agrees.free {next : Option Bytes} (h : (Main.testing next).Agrees p c)
    (hc : c ≠ .null) : (Main.freeing next).Agrees p c := by
  obtain ⟨-, heq⟩ | ⟨rfl, hfreed⟩ := h.testing
  · exact absurd heq hc
  · cases c with
    | null => exact absurd rfl hc
    | str string => exact ⟨string, rfl⟩
    | freed => exact absurd rfl hfreed

/-- The service goes on with a close, and asks nothing of the reader yet. -/
theorem State.Tells.goes (h : s.Tells) (hlate : s.main.late = false)
    (hne : s.main ≠ .closingDevice) (hm : m.late = false)
    (hnext : m.next = none ∨ m.next = s.main.next) (hagrees : m.Agrees s.phase c) :
    { s with main := m, closing := c }.Tells :=
  { h with
    agrees := hagrees
    asked := fun ht string heq => by
      rcases hnext with hnone | hsame
      · exact absurd (hnone.symm.trans heq) (Option.some_ne_none string).symm
      · exact h.asked ht string (hsame.symm.trans heq)
    string := fun _ hset => absurd (hm.symm.trans hset) Bool.false_ne_true
    fresh := fun ht _ _ => h.fresh ht hlate hne }

/-- The service asks the reader to end, with the string that is set. -/
theorem State.Tells.asks (h : s.Tells) (hm : m.late = true) (hagrees : m.Agrees s.phase c)
    (hstring : s.thread = true → ∀ string, c = .str string → s.asked = some string) :
    { s with main := m, closing := c }.Tells :=
  { h with
    agrees := hagrees
    asked := fun _ string heq => by
      have hnone : m.next = none := by
        cases m <;> first | exact absurd hm Bool.false_ne_true | rfl
      exact absurd (hnone.symm.trans heq) (Option.some_ne_none string).symm
    string := fun ht _ => hstring ht
    fresh := fun _ hlate => absurd (hm.symm.trans hlate) Bool.false_ne_true.symm }

theorem State.Tells.awaits (h : s.Tells) (hm : s.main.late = true) (hm' : m.late = true) {b : Bool}
    {q : Option Nat} : { s with main := m, server := b, pollRead := q }.Tells :=
  { h.asks hm' (h.agrees.awaits hm hm') fun ht => h.string ht hm with }

/-- The reader has ended. -/
theorem State.Tells.awaited (h : s.Tells) (hm : s.main.late = true) (hpast : s.phase = .past)
    {b : Bool} : { s with thread := b, main := .closingDevice }.Tells :=
  { h with
    agrees := by
      show Main.closingDevice.Agrees s.phase s.closing
      rw [hpast]
      exact (hpast ▸ h.agrees).awaited hm (.inl rfl)
    asked := fun _ string heq => absurd heq (Option.some_ne_none string).symm
    string := fun _ hset => absurd hset Bool.false_ne_true
    fresh := fun _ _ hne => absurd rfl hne }

/-- The main thread goes on, and leaves the word to the reader. -/
theorem State.Tells.after {next : Option Bytes} (h : s.Tells) (hlate : s.main.late = false)
    (hne : s.main ≠ .closingDevice) (hnext : s.main.next = next)
    (hphase : s.phase = .before ∨ s.phase = .past) :
    ({ s with closing := .null }.after next).Tells := by
  unfold State.after
  split
  · refine h.goes hlate hne rfl (.inl rfl) ?_
    rcases hphase with heq | heq <;> rw [heq]
    · rfl
    · exact nofun
  · refine h.asks rfl ?_ fun _ => nofun
    rcases hphase with heq | heq <;> rw [heq] <;> exact ⟨rfl, nofun⟩
  · next string hstring =>
    refine h.goes hlate hne rfl (.inr hnext.symm) ?_
    rcases hphase with heq | heq <;> rw [heq] <;> exact ⟨rfl, hstring⟩

/-- Every step of the main thread keeps the invariant. -/
theorem State.Tells.goMain (h : s.Tells) (hc : s.Control) : (s.goMain set).Tells := by
  have hagrees := h.agrees
  have hpast (hreader : s.reader = none) : s.phase = .past := by
    rw [State.phase, hreader, Option.elim_none]
  have hreader (hthread : s.thread = false) : s.reader = none := by
    by_contra hne
    exact absurd (hthread.symm.trans (hc.thread hne)) Bool.false_ne_true
  unfold State.goMain
  split
  · exact h
  · next next hm =>
    rw [hm] at hagrees
    split
    · next hnull =>
      have hafter : ({ s with closing := .null }.after next).Tells :=
        h.after (by rw [hm]; rfl) (by simp [hm]) (by rw [hm]; rfl)
          (hagrees.testing.imp And.left And.left)
      rwa [← hnull] at hafter
    · next hnull =>
      exact h.goes (by rw [hm]; rfl) (by simp [hm]) rfl (.inr (by rw [hm]; rfl))
        (hagrees.free hnull)
  · next next hm =>
    rw [hm] at hagrees
    obtain ⟨hphase, string, hstring⟩ := hagrees.freeing
    rw [hstring]
    refine h.goes (by rw [hm]; rfl) (by simp [hm]) rfl (.inr (by rw [hm]; rfl)) ?_
    rw [hphase]
    rfl
  · next next hm =>
    rw [hm] at hagrees
    exact h.after (by rw [hm]; rfl) (by simp [hm]) (by rw [hm]; rfl) (.inr hagrees.clearing.1)
  · next string hm =>
    rw [hm] at hagrees
    obtain ⟨hphase, hstring⟩ := hagrees.setting
    refine h.asks rfl ?_ fun ht other hother => ?_
    · rcases hphase with heq | heq <;> rw [heq] <;> exact ⟨rfl, nofun⟩
    · obtain rfl := Closing.str.inj hother
      rw [h.asked ht string (by rw [hm]; rfl), told, if_neg hstring]
  · next hm => exact h.awaits (by rw [hm]; rfl) rfl
  · next hm =>
    split
    · exact h.awaits (by rw [hm]; rfl) rfl
    · next hthread =>
      exact h.awaited (by rw [hm]; rfl) (hpast (hreader (Bool.eq_false_iff.mpr hthread)))
  · next hm =>
    split
    · next hnone => exact h.awaited (by rw [hm]; rfl) (hpast hnone)
    · exact h
  · next hm =>
    have hthread := hc.joined hm
    have hclosed : { s with main := .idle }.Tells := { h with
      agrees := by
        show Main.idle.Agrees s.phase s.closing
        rw [hm, hpast (hreader hthread)] at hagrees
        rw [hpast (hreader hthread)]
        exact hagrees
      asked := fun _ string heq => absurd heq (Option.some_ne_none string).symm
      string := fun _ hset => absurd hset Bool.false_ne_true
      fresh := fun ht => absurd (hthread.symm.trans ht) Bool.false_ne_true }
    unfold State.closeDevice
    split
    · exact hclosed
    · exact { hclosed with }

/-- The reader goes on in a phase. -/
theorem State.Tells.moves (h : s.Tells) (hr : s.reader = some r) (r' : Reader)
    (hphase : r'.phase = r.phase) (hreads : r'.reads = r.reads ∨ r'.reads = false) {x : Socket}
    {w : Option Writer} {q q' : Option Nat} {sh : List (Bytes × Nat)} {rs : List (Option Bytes)}
    {i : Bytes} {t : Tty} :
    { s with
      reader := some r', socket := x, writer := w, pollRead := q, pollWrite := q', shown := sh,
      reads := rs, input := i, tty := t }.Tells := by
  have hagrees := h.agrees
  rw [State.phase, hr, Option.elim_some, ← hphase] at hagrees
  exact { h with
    agrees := hagrees
    last := fun hne q hq => by
      obtain rfl := Option.some.inj hq
      rcases hreads with heq | heq
      · exact heq.trans (h.last hne r hr)
      · exact heq }

/-- The reader may end when it has not begun with the word, or is through with it. -/
theorem State.Tells.ends (h : s.Tells) (hr : s.reader = some r)
    (hphase : r.phase = .before ∨ r.phase = .past) {q : Option Nat} :
    { s with reader := none, pollRead := q }.Tells := by
  have hagrees := h.agrees
  rw [State.phase, hr, Option.elim_some] at hagrees
  refine { h with agrees := ?_, last := nofun }
  rcases hphase with heq | heq
  · rw [heq] at hagrees
    exact hagrees.ends
  · rw [heq] at hagrees
    exact hagrees

/-- The reader goes on behind its reads, and sets no string. -/
theorem State.Tells.leaves (h : s.Tells) {r' : Reader} (hreads : r'.reads = false)
    (hagrees : s.main.Agrees r'.phase c)
    (hstring : ∀ string, c = .str string → s.closing = .str string) :
    { s with reader := some r', closing := c }.Tells :=
  { h with
    agrees := hagrees
    string := fun ht hlate string heq => h.string ht hlate string (hstring string heq)
    last := fun _ r hr => by
      obtain rfl := Option.some.inj hr
      exact hreads }

/-- A read that is redirected leaves the word alone. -/
theorem State.Tells.redirect (h : s.Tells) (hr : s.reader = some .reading) (t : Tty)
    (got : Option (Option Bytes)) (buf : Bytes) :
    ({ s.took got with tty := t }.redirect buf).Tells := by
  unfold State.redirect
  refine h.moves hr _ ?_ (.inl ?_)
  all_goals split <;> rfl

theorem State.Tells.readRaw (h : s.Tells) (hr : s.reader = some .reading) :
    (s.readRaw result).Tells := by
  unfold State.readRaw
  split
  · exact h
  · exact h.moves hr .parting rfl (.inr rfl)
  · exact h.redirect hr s.tty _ _

theorem State.Tells.readLine (h : s.Tells) (hr : s.reader = some .reading) (fd : Nat) :
    (s.readLine fd result).Tells := by
  unfold State.readLine
  dsimp only
  split
  · exact { h with }
  · exact h.moves hr .parting rfl (.inr rfl)
  · exact h.redirect hr _ _ _

/-- Every step of the reader keeps the invariant. -/
theorem State.Tells.goReader (h : s.Tells) (hc : s.Control) : (s.goReader result).Tells := by
  have hagrees := h.agrees
  have hthread (r : Reader) (hr : s.reader = some r) : s.thread = true := hc.thread (hr ▸ nofun)
  unfold State.goReader
  split
  · exact h
  · next hr =>
    split
    · exact h.ends hr (.inl rfl)
    · exact h.moves hr .accepting rfl (.inl rfl)
  · next hr =>
    split
    · exact h.moves hr .creating rfl (.inl rfl)
    · exact h.ends hr (.inl rfl)
  · next hr => exact h.moves hr .waiting rfl (.inl rfl)
  · next hr =>
    split
    · exact h.moves hr .parting rfl (.inr rfl)
    · exact h.moves hr .parting rfl (.inr rfl)
    · split
      · exact h.moves hr .reading rfl (.inl rfl)
      · exact h
  · next hr =>
    split
    · exact h.moves hr .parting rfl (.inr rfl)
    · exact h.readRaw hr
    · exact h.readLine hr _
  · next hr =>
    split
    · exact h.moves hr .parting rfl (.inr rfl)
    · split
      · exact h
      · exact h.moves hr .waiting rfl (.inl rfl)
  · next hr =>
    rw [State.phase, hr, Option.elim_some] at hagrees
    split
    · exact h.leaves rfl hagrees.ends fun _ => id
    · next hnull => exact h.leaves rfl (hagrees.holds hnull) fun _ => id
  · next hr =>
    rw [State.phase, hr, Option.elim_some] at hagrees
    have hlate := hagrees.late (.inl rfl)
    obtain ⟨string, hstring⟩ := hagrees.held
    split
    · next told htold =>
      split
      · exact h
      · have hfreeing : { s with reader := some .freeing }.Tells :=
          h.leaves rfl hagrees fun _ => id
        exact { hfreeing with
          farewell := fun p hp => by
            obtain rfl := Option.some.inj hp
            exact h.string (hthread _ hr) hlate told htold
          fresh := fun _ hearly => absurd (hlate.symm.trans hearly) Bool.false_ne_true.symm
          last := fun _ r hr => by
            obtain rfl := Option.some.inj hr
            rfl }
    · next hnull => exact nomatch hstring.symm.trans hnull
    · next hfreed => exact nomatch hstring.symm.trans hfreed
  · next hr =>
    rw [State.phase, hr, Option.elim_some] at hagrees
    obtain ⟨string, hstring⟩ := hagrees.held
    rw [hstring]
    exact h.leaves rfl (Main.Agrees.of_late (hagrees.late (.inl rfl))).1 fun _ => nofun
  · next hr =>
    rw [State.phase, hr, Option.elim_some] at hagrees
    exact h.leaves rfl (Main.Agrees.of_late (hagrees.late (.inr rfl))).2 fun _ => nofun
  · next hr => exact h.moves hr .shutting rfl (.inr rfl)
  · next hr => exact h.moves hr .closingSocket rfl (.inr rfl)
  · next hr => exact h.moves hr .breaking rfl (.inr rfl)
  · next hr => exact h.moves hr .joining rfl (.inr rfl)
  · next hr =>
    split
    · exact h.ends hr (.inr rfl)
    · exact h

theorem State.Tells.goWriter (h : s.Tells) : (s.goWriter result).Tells := by
  unfold State.goWriter
  repeat' split
  all_goals exact { h with }

/-- The condition on one step: no string of an earlier close is left when a device is opened. -/
def Fresh (s : State) : Event → Prop
  | .opens _ _ _ _ _ => s.closing = .null
  | _ => True

instance (s : State) : (e : Event) → Decidable (Fresh s e)
  | .opens _ _ _ _ _ => inferInstanceAs (Decidable (s.closing = .null))
  | .send _ | .clientEnds | .socketFull _ | .deliver _ | .deviceEnds | .deviceFull _ | .setMode _
  | .setType _ | .close _ | .disconnect | .main _ | .reader _ | .writer _ => .isTrue trivial

/-- A session is opened where the word of the last one is gone. -/
theorem State.Tells.openDevice (h : s.Tells) (hm : s.main = .idle) (hnull : s.closing = .null)
    {fd : Option Nat} {type : TtyType} {got server : Bool} :
    (s.openDevice fd type got set server).Tells := by
  unfold State.openDevice
  split
  · exact h
  · split
    · exact { h with }
    · dsimp only
      split
      · exact { h with
          agrees := by
            show s.main.Agrees .before s.closing
            rw [hm, hnull]
            rfl
          asked := fun _ string heq => by rw [hm] at heq; cases heq
          string := fun _ hlate => by rw [hm] at hlate; cases hlate
          farewell := nofun
          fresh := fun _ _ _ => rfl
          last := fun hne => absurd rfl hne }
      · exact { h with }

/-- Every event keeps the invariant. -/
theorem State.Tells.step (h : s.Tells) (hc : s.Control) {e : Event} (he : Fresh s e) :
    (s.step e).Tells := by
  have hagrees := h.agrees
  cases e with
  | send b =>
    rw [State.step]
    split
    · exact { h with }
    · exact h
  | clientEnds | socketFull | deviceFull => exact { h with }
  | deliver b =>
    rw [State.step]
    split
    · exact h
    · exact { h with }
  | deviceEnds => exact { h with }
  | setMode mode =>
    rw [State.step]
    split
    · exact { h with }
    · exact h
  | setType type =>
    rw [State.step]
    split
    · exact { h with }
    · exact h
  | opens fd type got set server =>
    rw [State.step]
    split
    · next hm => exact h.openDevice hm he
    · exact h
  | close string =>
    rw [State.step]
    split
    · next hm =>
      rw [hm] at hagrees
      exact { h with
        agrees := by
          show (Main.testing (some string)).Agrees s.phase s.closing
          cases hp : s.phase <;> rw [hp] at hagrees <;> exact hagrees
        asked := fun ht other hother => by
          obtain rfl := Option.some.inj hother
          exact if_pos ht
        string := fun _ hlate => absurd hlate Bool.false_ne_true
        farewell := fun p hp => by
          dsimp only at hp ⊢
          split
          · next ht =>
            rw [h.fresh ht (by rw [hm]; rfl) (by simp [hm])] at hp
            cases hp
          · exact h.farewell p hp
        fresh := fun ht _ _ => h.fresh ht (by rw [hm]; rfl) (by simp [hm]) }
    · exact h
  | disconnect =>
    rw [State.step]
    split
    · next hm =>
      rw [hm] at hagrees
      refine h.goes (by rw [hm]; rfl) (by simp [hm]) rfl (.inl rfl) ?_
      cases hp : s.phase <;> rw [hp] at hagrees <;> exact hagrees
    · exact h
  | main set => exact h.goMain hc
  | reader result => exact h.goReader hc
  | writer result => exact h.goWriter

/-- It holds before a session is opened. -/
theorem tells_init : State.init.Tells where
  agrees := nofun
  safe := rfl
  asked := nofun
  string := nofun
  farewell := nofun
  fresh := nofun
  last := nofun

end Tells

end AndroidLearn.Iotty
