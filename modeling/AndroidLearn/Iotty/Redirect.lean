import Mathlib.Data.List.Infix
import Mathlib.Data.List.ReduceOption
import AndroidLearn.Lib.Run
import AndroidLearn.Iotty.Closing

/-!
# What goes through a session

What `redirect` of `iotty.c` moves, in the two directions. Each thread has one buffer:
what it has read and not yet written is in its hand (`Reader.hand`, `Writer.hand`). In raw
mode a buffer is what one `read` gave; in canonical mode it is what `tty_read_line`
returned, over as many reads as it took.

The invariant, `State.Carries`, says of each direction that what was written, what is in
hand and what is still to be read make up what was sent. In canonical mode the reads are
those of a number of calls that have returned a line (`Calls`), and of one under way that
has returned none (`Lineless`): a line that was read is shown, and no other bytes are.

A buffer that is written to somebody who has gone is recorded as lost; up to the first one
that is, what has come through is a begin of what was sent (`Whole`, `got`).

Theorem: `redirect_run`, over every run in which no device is opened while the string of
an earlier close is left. What was read on one side is what was written on the other, in
order and nothing twice, but for the buffer in hand; a session gets nothing of another,
and the string that it is told is the one it was closed with.
-/

namespace AndroidLearn.Iotty

open Run Ttytool

/-! ## What goes through -/

/-- What the reader has in hand. -/
def Reader.hand : Reader → Bytes
  | .writing buffer => buffer
  | _ => []

/-- What the writer has in hand. -/
def Writer.hand : Writer → Bytes
  | .writing buffer => buffer
  | _ => []

/-- What the threads have read and not written yet. -/
def State.toBeShown (s : State) : Bytes := s.reader.elim [] Reader.hand

/-- What is about to be written to the device. -/
def State.toBeWritten (s : State) : Bytes := s.writer.elim [] Writer.hand

/-- The buffers of some calls of `write`. -/
def buffers (writes : List (Bytes × Nat)) : Bytes := (writes.map Prod.fst).flatten

/-- Calls of `tty_read_line` that returned the lines and used up what was read. -/
inductive Calls (fd : Nat) (tty : Tty) : List (Option Bytes) → List Bytes → Tty → Prop where
  | none : Calls fd tty [] [] tty
  | call {reads part : List (Option Bytes)} {lines : List Bytes} {line : Bytes} {t t' : Tty} :
      Calls fd tty reads lines t → ttyReadLine fd bufferSize part t = (.line line, [], t') →
      Calls fd tty (reads ++ part) (lines ++ [line]) t'

/-- A call of `tty_read_line` that was given the reads has not returned a line: it waits for more,
or has failed. Without a read there need be no call. -/
def Lineless (fd : Nat) (t : Tty) (part : List (Option Bytes)) : Prop :=
  part = [] ∨ ∃ outcome t', ttyReadLine fd bufferSize part t = (outcome, [], t') ∧
    ∀ line, outcome ≠ .line line

/-- In the canonical mode the lines of `tty_read_line` are shown. The last call of it has not
returned yet, or not with a line. -/
structure State.Lines (s : State) (done part : List (Option Bytes)) (lines : List Bytes)
    (t : Tty) : Prop where
  reads : s.reads = done ++ part
  calls : Calls s.opened.fd s.opened.tty done lines t
  shown : buffers s.shown ++ s.toBeShown = lines.flatten
  lineless : Lineless s.opened.fd t part
  part : ∀ r, s.reader = some r → r.reads = true → part = [] ∧ s.tty = t ∨
    r = .reading ∧ ttyReadLine s.opened.fd bufferSize part t = (.waiting, [], s.tty)

/-- The invariant: nothing is lost and nothing comes twice, in both directions. -/
structure State.Carries (s : State) : Prop where
  sent : buffers s.written ++ s.toBeWritten ++ s.queue = s.sent
  delivered : s.reads.reduceOption.flatten ++ s.input = s.delivered
  raw : s.opened.mode = .raw → buffers s.shown ++ s.toBeShown = s.reads.reduceOption.flatten
  canonical : s.opened.mode = .canonical → ∃ done part lines t, s.Lines done part lines t

section Carries

variable {s : State} {result : Option Nat} {set : Bool} {r : Reader} {w : Writer}

theorem buffers_concat (writes : List (Bytes × Nat)) (buffer : Bytes) (k : Nat) :
    buffers (writes ++ [(buffer, k)]) = buffers writes ++ buffer := by
  simp [buffers]

/-- A read that is no line end goes into the cache. -/
theorem ttyReadLine_store {fd count : Nat} {reads : List (Option Bytes)} {t t' : Tty} {buf : Bytes}
    {p : TtyDb} (hcount : ¬ count < 3) (hcache : t.cache.readFromCache count = none)
    (hget : t.ttydbGet fd = (p, t')) (hstate : p.ttyState ≠ .canonical) :
    ttyReadLine fd count (some buf :: reads) t =
      ttyReadLine fd count reads { t' with cache := t'.cache.store buf } := by
  rw [ttyReadLine, if_neg hcount, hcache]
  simp only [hget]
  exact if_neg hstate

/-- A call leaves alone what it does not use. -/
theorem ttyReadLine_used (fd count : Nat) (reads : List (Option Bytes)) (t : Tty) :
    ∃ used, reads = used ++ (ttyReadLine fd count reads t).2.1 ∧
      ttyReadLine fd count used t =
        ((ttyReadLine fd count reads t).1, [], (ttyReadLine fd count reads t).2.2) := by
  fun_induction ttyReadLine fd count reads t with
  | case1 reads t hcount => exact ⟨[], rfl, by rw [ttyReadLine, if_pos hcount]⟩
  | case2 reads t hcount line cache hcache =>
    exact ⟨[], rfl, by rw [ttyReadLine, if_neg hcount, hcache]⟩
  | case3 t hcount hcache => exact ⟨[], rfl, by rw [ttyReadLine, if_neg hcount, hcache]⟩
  | case4 t hcount hcache reads => exact ⟨[none], rfl, by rw [ttyReadLine, if_neg hcount, hcache]⟩
  | case5 t hcount hcache buf reads p t' hget hstate =>
    refine ⟨[some buf], rfl, ?_⟩
    rw [ttyReadLine, if_neg hcount, hcache]
    simp only [hget]
    exact if_pos hstate
  | case6 t hcount hcache buf reads p t' hget hstate ih =>
    obtain ⟨used, hreads, hused⟩ := ih
    exact ⟨some buf :: used, congrArg (some buf :: ·) hreads,
      (ttyReadLine_store hcount hcache hget hstate).trans hused⟩

/-- A call that waited goes on with what comes next. -/
theorem ttyReadLine_append {fd count : Nat} {part more : List (Option Bytes)} {t t' : Tty}
    (h : ttyReadLine fd count part t = (.waiting, [], t')) :
    ttyReadLine fd count (part ++ more) t = ttyReadLine fd count more t' := by
  fun_induction ttyReadLine fd count part t with
  | case1 | case2 | case4 | case5 => exact nomatch congrArg Prod.fst h
  | case3 t hcount hcache =>
    obtain rfl : t = t' := congrArg (fun r => r.2.2) h
    rfl
  | case6 t hcount hcache buf reads p t' hget hstate ih =>
    rw [List.cons_append, ttyReadLine_store hcount hcache hget hstate]
    exact ih h

/-- What is read was there to be read. -/
theorem readDevice_some {buf : Bytes} (h : s.readDevice result = some (some buf)) :
    buf ++ s.input.drop buf.length = s.input := by
  unfold State.readDevice at h
  split at h
  · exact nomatch h
  · split at h
    · obtain rfl := Option.some.inj (Option.some.inj h)
      exact (List.prefix_append_drop (List.take_prefix _ _)).symm
    · split at h
      · obtain rfl := Option.some.inj (Option.some.inj h)
        rfl
      · exact nomatch h

/-- Whether the read is taken or not, what was read and what is left is what was delivered. -/
theorem took_delivered (got : Option (Option Bytes))
    (h : got = none ∨ got = s.readDevice result) :
    (s.took got).reads.reduceOption.flatten ++ (s.took got).input =
      s.reads.reduceOption.flatten ++ s.input := by
  unfold State.took
  match got with
  | none => simp
  | some none => simp [List.reduceOption_append]
  | some (some buf) =>
    have hbuf := readDevice_some (h.resolve_left nofun).symm
    simp only [Option.toList_some, Option.join_some, Option.getD_some,
      List.reduceOption_append, List.reduceOption_singleton, List.flatten_append,
      List.flatten_singleton, List.append_assoc, hbuf]

/-- The reader goes on, with nothing in hand. -/
theorem State.Carries.moves (h : s.Carries) (hr : s.reader = some r) (r' : Reader)
    (hhand : r.hand = []) (hhand' : r'.hand = [])
    (hreads : r'.reads = true → r.reads = true ∧ r ≠ .reading) {x : Socket} {q q' : Option Nat}
    {c : Closing} {b : Bool} {f : Option (Bytes × Nat)} :
    { s with
      reader := some r', socket := x, pollRead := q, pollWrite := q', closing := c, broken := b,
      farewell := f }.Carries := by
  have hshown : buffers s.shown ++ s.toBeShown = buffers s.shown ++ r'.hand := by
    rw [State.toBeShown, hr, Option.elim_some, hhand, hhand']
  refine { h with raw := fun hraw => hshown.symm.trans (h.raw hraw), canonical := fun hmode => ?_ }
  obtain ⟨done, part, lines, t, hlines⟩ := h.canonical hmode
  refine ⟨done, part, lines, t, { hlines with
    shown := hshown.symm.trans hlines.shown
    part := fun q hq hread => ?_ }⟩
  obtain rfl := Option.some.inj hq
  obtain ⟨hread, hne⟩ := hreads hread
  exact .inl ((hlines.part r hr hread).resolve_right fun hreading => hne hreading.1)

/-- The reader may end with nothing in hand. -/
theorem State.Carries.ends (h : s.Carries) (hr : s.reader = some r) (hhand : r.hand = [])
    {q : Option Nat} : { s with reader := none, pollRead := q }.Carries := by
  have hshown : buffers s.shown ++ s.toBeShown = buffers s.shown ++ [] := by
    rw [State.toBeShown, hr, Option.elim_some, hhand]
  refine { h with raw := fun hraw => hshown.symm.trans (h.raw hraw), canonical := fun hmode => ?_ }
  obtain ⟨done, part, lines, t, hlines⟩ := h.canonical hmode
  exact ⟨done, part, lines, t, { hlines with
    shown := hshown.symm.trans hlines.shown
    part := nofun }⟩

/-- What was read is in hand. -/
theorem hand_redirect (buf : Bytes) :
    (if buf = [] then Reader.waiting else Reader.writing buf).hand = buf := by
  split
  · next hnil => exact hnil.symm
  · rfl

/-- A raw read goes to the client. -/
theorem State.Carries.readRaw (h : s.Carries) (hr : s.reader = some .reading)
    (hmode : s.opened.mode = .raw) : (s.readRaw result).Carries := by
  have hcanonical : s.opened.mode ≠ .canonical := hmode ▸ nofun
  have hraw := h.raw hmode
  rw [State.toBeShown, hr] at hraw
  unfold State.readRaw
  split
  · exact h
  · next hgot =>
    have hdelivered := (took_delivered _ (.inr hgot.symm)).trans h.delivered
    exact { h with
      delivered := hdelivered
      raw := fun _ => hraw.trans (by simp [State.took, List.reduceOption_append])
      canonical := fun heq => absurd heq hcanonical }
  · next buf hgot =>
    have hdelivered := (took_delivered _ (.inr hgot.symm)).trans h.delivered
    exact { h with
      delivered := hdelivered
      raw := fun _ => by
        show buffers s.shown ++ (if buf = [] then Reader.waiting else .writing buf).hand = _
        rw [hand_redirect]
        simpa [State.took, State.redirect, List.reduceOption_append, Reader.hand] using hraw
      canonical := fun heq => absurd heq hcanonical }

/-- What a call with one read at most has used. -/
theorem used_eq {got : Option (Option Bytes)} {used rest : List (Option Bytes)}
    (h : got.toList = used ++ rest) : used = (if rest = [] then got else none).toList := by
  split
  · next hrest => rw [h, hrest, List.append_nil]
  · next hrest =>
    cases used with
    | nil => rfl
    | cons u used =>
      cases got with
      | none => exact nomatch h
      | some read =>
        have hnil : used ++ rest = [] := (List.cons.inj h).2.symm
        exact absurd (List.append_eq_nil_iff.mp hnil).2 hrest

/-- A line goes to the client when it is there. -/
theorem State.Carries.readLine (h : s.Carries) (hr : s.reader = some .reading)
    (hmode : s.opened.mode = .canonical) :
    (s.readLine s.opened.fd result).Carries := by
  have hraw : s.opened.mode ≠ .raw := hmode ▸ nofun
  obtain ⟨done, part, lines, t, hlines⟩ := h.canonical hmode
  have hshown := hlines.shown
  rw [State.toBeShown, hr] at hshown
  unfold State.readLine
  rcases hcalled : ttyReadLine s.opened.fd bufferSize (s.readDevice result).toList s.tty with
    ⟨outcome, rest, tty⟩
  obtain ⟨used, hsplit, hused⟩ :=
    ttyReadLine_used s.opened.fd bufferSize (s.readDevice result).toList s.tty
  rw [hcalled] at hsplit hused
  -- the call under way, with the read that was added to it
  have hcall : ttyReadLine s.opened.fd bufferSize (part ++ used) t = (outcome, [], tty) := by
    rcases hlines.part .reading hr rfl with ⟨rfl, rfl⟩ | ⟨-, hwaiting⟩
    · exact hused
    · exact (ttyReadLine_append hwaiting).trans hused
  have htaken : (if rest = [] then s.readDevice result else none) = none ∨
      (if rest = [] then s.readDevice result else none) = s.readDevice result := by
    split
    · exact .inr rfl
    · exact .inl rfl
  have hdelivered := (took_delivered _ htaken).trans h.delivered
  have hreads : (s.took (if rest = [] then s.readDevice result else none)).reads =
      done ++ (part ++ used) := by
    rw [used_eq hsplit, ← List.append_assoc, ← hlines.reads]
    rfl
  dsimp only
  rw [hcalled]
  dsimp only
  split
  · exact { h with
      delivered := hdelivered
      raw := fun heq => absurd heq hraw
      canonical := fun _ => ⟨done, part ++ used, lines, t, { hlines with
        reads := hreads
        lineless := .inr ⟨_, _, hcall, nofun⟩
        part := fun r hq _ => .inr ⟨Option.some.inj (hq.symm.trans hr), hcall⟩ }⟩ }
  · exact { h with
      delivered := hdelivered
      raw := fun heq => absurd heq hraw
      canonical := fun _ => ⟨done, part ++ used, lines, t, { hlines with
        reads := hreads
        shown := hshown
        lineless := .inr ⟨_, _, hcall, nofun⟩
        part := fun r hq hread => by obtain rfl := Option.some.inj hq; cases hread }⟩ }
  · next buf =>
    exact { h with
      delivered := hdelivered
      raw := fun heq => absurd heq hraw
      canonical := fun _ => ⟨done ++ (part ++ used), [], lines ++ [buf], tty, {
        reads := hreads.trans (List.append_nil _).symm
        calls := hlines.calls.call hcall
        shown := by
          show buffers s.shown ++ (if buf = [] then Reader.waiting else .writing buf).hand = _
          rw [hand_redirect]
          simpa [Reader.hand] using hshown
        lineless := .inl rfl
        part := fun _ _ _ => .inl ⟨rfl, rfl⟩ }⟩ }

/-- What was in hand is shown. -/
theorem State.Carries.shows {buffer : Bytes} (h : s.Carries)
    (hr : s.reader = some (.writing buffer)) (k : Nat) (r' : Reader) (hhand' : r'.hand = []) :
    { s with shown := s.shown ++ [(buffer, k)], reader := some r' }.Carries := by
  have hshown : buffers s.shown ++ s.toBeShown = buffers (s.shown ++ [(buffer, k)]) ++ r'.hand := by
    rw [State.toBeShown, hr, Option.elim_some, hhand', buffers_concat, List.append_nil]
    rfl
  refine { h with raw := fun hraw => hshown.symm.trans (h.raw hraw), canonical := fun hmode => ?_ }
  obtain ⟨done, part, lines, t, hlines⟩ := h.canonical hmode
  exact ⟨done, part, lines, t, { hlines with
    shown := hshown.symm.trans hlines.shown
    part := fun _ _ _ => .inl ((hlines.part _ hr rfl).resolve_right nofun) }⟩

/-- Every step of the reader keeps the invariant. -/
theorem State.Carries.goReader (h : s.Carries) (hc : s.Control) : (s.goReader result).Carries := by
  unfold State.goReader
  split
  · exact h
  · next hr =>
    split
    · exact h.ends hr rfl
    · exact h.moves hr .accepting rfl rfl fun _ => ⟨rfl, nofun⟩
  · next hr =>
    split
    · exact h.moves hr .creating rfl rfl fun _ => ⟨rfl, nofun⟩
    · exact h.ends hr rfl
  · next hr =>
    have hsent := h.sent
    rw [State.toBeWritten, hc.alone hr rfl] at hsent
    have hwaiting : { s with reader := some .waiting }.Carries :=
      h.moves hr .waiting rfl rfl fun _ => ⟨rfl, nofun⟩
    exact { hwaiting with
      sent := hsent
      canonical := fun hmode => by
        obtain ⟨done, part, lines, t, hlines⟩ := hwaiting.canonical hmode
        exact ⟨done, part, lines, t, { hlines with }⟩ }
  · next hr =>
    split
    · exact h.moves hr .parting rfl rfl nofun
    · exact h.moves hr .parting rfl rfl nofun
    · split
      · exact h.moves hr .reading rfl rfl fun _ => ⟨rfl, nofun⟩
      · exact h
  · next hr =>
    obtain ⟨hmode, hdevice⟩ := hc.opened (hr ▸ nofun)
    split
    · exact h.moves hr .parting rfl rfl nofun
    · next hraw _ => exact h.readRaw hr (hmode.trans hraw)
    · next fd hcanonical hfd =>
      obtain rfl : s.opened.fd = fd := Option.some.inj (hdevice.symm.trans hfd)
      exact h.readLine hr (hmode.trans hcanonical)
  · next hr =>
    split
    · exact h.shows hr 0 .parting rfl
    · split
      · exact h
      · exact h.shows hr _ .waiting rfl
  · next hr =>
    refine h.moves hr _ rfl ?_ ?_
    all_goals split <;> first | rfl | exact nofun
  · next hr =>
    split
    · split
      · exact h
      · exact h.moves hr .freeing rfl rfl nofun
    all_goals exact h.moves hr .freeing rfl rfl nofun
  · next hr =>
    split
    all_goals exact h.moves hr .clearing rfl rfl nofun
  · next hr => exact h.moves hr .closingPoll rfl rfl nofun
  · next hr => exact h.moves hr .shutting rfl rfl nofun
  · next hr => exact h.moves hr .closingSocket rfl rfl nofun
  · next hr => exact h.moves hr .breaking rfl rfl nofun
  · next hr => exact h.moves hr .joining rfl rfl nofun
  · next hr =>
    split
    · exact h.ends hr rfl
    · exact h

/-- What is not about the reader stays as it is. -/
theorem State.Carries.writes (h : s.Carries) {w' : Option Writer} {q : Option Nat}
    {ws : List (Bytes × Nat)} {b : Bytes}
    (hsent : buffers ws ++ w'.elim [] Writer.hand ++ b =
      buffers s.written ++ s.toBeWritten ++ s.queue) :
    { s with writer := w', pollWrite := q, written := ws, queue := b }.Carries :=
  { h with
    sent := hsent.trans h.sent
    canonical := fun hmode => by
      obtain ⟨done, part, lines, t, hlines⟩ := h.canonical hmode
      exact ⟨done, part, lines, t, { hlines with }⟩ }

theorem State.Carries.goWriter (h : s.Carries) : (s.goWriter result).Carries := by
  have hkeeps {w : Writer} (hw : s.writer = some w) (hhand : w.hand = []) {w' : Option Writer}
      (hhand' : w'.elim [] Writer.hand = []) :
      buffers s.written ++ w'.elim [] Writer.hand ++ s.queue =
        buffers s.written ++ s.toBeWritten ++ s.queue := by
    rw [State.toBeWritten, hw, Option.elim_some, hhand, hhand']
  unfold State.goWriter
  split
  · exact h
  · next hw =>
    split
    all_goals exact h.writes (hkeeps hw rfl rfl)
  · next hw =>
    split
    · exact h.writes (hkeeps hw rfl rfl)
    · exact h.writes (hkeeps hw rfl rfl)
    · split
      · exact h.writes (hkeeps hw rfl rfl)
      · split
        · exact h.writes (hkeeps hw rfl rfl)
        · exact h
  · next hw =>
    split
    · exact h.writes (hkeeps hw rfl rfl)
    · split
      · exact h.writes (hkeeps hw rfl rfl)
      · split
        · refine h.writes ?_
          rw [State.toBeWritten, hw]
          simp [Writer.hand]
        · split
          · exact h.writes (hkeeps hw rfl rfl)
          · exact h
  · next buffer hw =>
    have hwritten (k : Nat) (w : Writer) (hhand : w.hand = []) :
        buffers (s.written ++ [(buffer, k)]) ++ (some w).elim [] Writer.hand ++ s.queue =
          buffers s.written ++ s.toBeWritten ++ s.queue := by
      rw [State.toBeWritten, hw, Option.elim_some, hhand, buffers_concat, List.append_nil]
      rfl
    split
    · split
      · exact h
      · exact h.writes (hwritten _ .waiting rfl)
    · exact h.writes (hwritten _ .closing rfl)
  · next hw => exact h.writes (hkeeps hw rfl rfl)

/-- What the service does touches the tty only without a reader. -/
theorem State.Carries.serves (h : s.Carries) {tty : Tty} (htty : s.reader ≠ none → tty = s.tty)
    {m : Main} {c : Closing} {b sv th : Bool} {q d : Option Nat} {ty : TtyType} :
    { s with
      main := m, closing := c, broken := b, server := sv, thread := th, pollRead := q, device := d,
      type := ty, tty := tty }.Carries :=
  { h with
    canonical := fun hmode => by
      obtain ⟨done, part, lines, t, hlines⟩ := h.canonical hmode
      refine ⟨done, part, lines, t, { hlines with part := fun r hr hread => ?_ }⟩
      obtain rfl := htty (hr ▸ nofun)
      exact hlines.part r hr hread }

/-- The main thread goes on, and has nothing in hand. -/
theorem State.Carries.after (h : s.Carries) (c : Closing) (next : Option Bytes) :
    ({ s with closing := c }.after next).Carries := by
  unfold State.after
  split
  all_goals exact h.serves fun _ => rfl

theorem State.Carries.goMain (h : s.Carries) (hc : s.Control) : (s.goMain set).Carries := by
  unfold State.goMain
  split
  · exact h
  · split
    · exact h.after s.closing _
    · exact h.serves fun _ => rfl
  · split
    all_goals exact h.serves fun _ => rfl
  · exact h.after .null _
  · exact h.serves fun _ => rfl
  · exact h.serves fun _ => rfl
  · split
    all_goals exact h.serves fun _ => rfl
  · split
    · exact h.serves fun _ => rfl
    · exact h
  · next hm =>
    unfold State.closeDevice
    split
    · exact h.serves fun _ => rfl
    · refine h.serves fun hne => ?_
      exact absurd ((hc.joined hm).symm.trans (hc.thread hne)) Bool.false_ne_true

theorem State.Carries.openDevice (h : s.Carries) (hc : s.Control) {fd : Option Nat}
    {type : TtyType} {got server : Bool} :
    (s.openDevice fd type got set server).Carries := by
  unfold State.openDevice
  split
  · exact h
  · next hdevice =>
    have hreader : s.reader = none := by
      by_contra hne
      exact hdevice (hc.device (hc.thread hne))
    have hwriter : s.writer = none := by
      by_contra hne
      obtain ⟨q, hq, -⟩ := hc.writer hne
      exact nomatch hreader.symm.trans hq
    split
    · exact h.serves fun _ => rfl
    · dsimp only
      split
      · exact {
          sent := by
            show buffers [] ++ s.toBeWritten ++ [] = []
            rw [State.toBeWritten, hwriter]
            rfl
          delivered := rfl
          raw := fun _ => rfl
          canonical := fun _ => ⟨[], [], [], _, {
            reads := rfl
            calls := .none
            shown := rfl
            lineless := .inl rfl
            part := fun _ _ _ => .inl ⟨rfl, rfl⟩ }⟩ }
      · exact h.serves fun hne => absurd hreader hne

/-- What comes from outside is behind the rest. -/
theorem State.Carries.gets (h : s.Carries) {queue sent input delivered : Bytes}
    (hsent : buffers s.written ++ s.toBeWritten ++ queue = sent)
    (hdelivered : s.reads.reduceOption.flatten ++ input = delivered) {e u f g : Bool} {md : Mode}
    {ty : TtyType} {m : Main} {a : Option Bytes} :
    { s with
      queue := queue, sent := sent, input := input, delivered := delivered, ended := e,
      hungUp := u, socketFull := f, deviceFull := g, mode := md, type := ty, main := m, asked := a }.Carries :=
  { h with
    sent := hsent
    delivered := hdelivered
    canonical := fun hmode => by
      obtain ⟨done, part, lines, t, hlines⟩ := h.canonical hmode
      exact ⟨done, part, lines, t, { hlines with }⟩ }

/-- Every event keeps the invariant. -/
theorem State.Carries.step (h : s.Carries) (hc : s.Control) (e : Event) : (s.step e).Carries := by
  cases e with
  | send b =>
    rw [State.step]
    split
    · exact h.gets (by rw [← h.sent]; exact (List.append_assoc _ _ _).symm) h.delivered
    · exact h
  | clientEnds | socketFull | deviceFull => exact h.gets h.sent h.delivered
  | deliver b =>
    rw [State.step]
    split
    · exact h
    · exact h.gets h.sent (by rw [← h.delivered, List.append_assoc])
  | deviceEnds => exact h.gets h.sent h.delivered
  | setMode mode =>
    rw [State.step]
    split
    · exact h.gets h.sent h.delivered
    · exact h
  | setType type =>
    rw [State.step]
    split
    · exact h.gets h.sent h.delivered
    · exact h
  | opens fd type got set server =>
    rw [State.step]
    split
    · exact h.openDevice hc
    · exact h
  | close string =>
    rw [State.step]
    split
    · exact h.gets h.sent h.delivered
    · exact h
  | disconnect =>
    rw [State.step]
    split
    · exact h.gets h.sent h.delivered
    · exact h
  | main set => exact h.goMain hc
  | reader result => exact h.goReader hc
  | writer result => exact h.goWriter

/-- It holds before a session is opened. -/
theorem carries_init : State.init.Carries where
  sent := rfl
  delivered := rfl
  raw := fun _ => rfl
  canonical := fun _ => ⟨[], [], [], _, {
    reads := rfl
    calls := .none
    shown := rfl
    lineless := .inl rfl
    part := nofun }⟩

end Carries

/-! ## Runs -/

/-- What has arrived of what was written. -/
def got (writes : List (Bytes × Nat)) : Bytes := writes.flatMap fun w => w.1.take w.2

/-- No call of `write` but the last came short. -/
def Whole (writes : List (Bytes × Nat)) : Prop := ∀ w ∈ writes.dropLast, w.1.length ≤ w.2

instance (writes : List (Bytes × Nat)) : Decidable (Whole writes) :=
  inferInstanceAs (Decidable (∀ w ∈ writes.dropLast, _))

/-- The three invariants together. -/
structure State.Inv (s : State) : Prop where
  control : s.Control
  tells : s.Tells
  carries : s.Carries

/-- What was taken of whole writes is what was written. -/
theorem prefix_got {writes : List (Bytes × Nat)} (h : Whole writes) :
    got writes <+: buffers writes := by
  rcases List.eq_nil_or_concat' writes with rfl | ⟨front, last, rfl⟩
  · exact List.prefix_rfl
  · rw [Whole, List.dropLast_concat] at h
    have hfront : got front = buffers front := by
      rw [got, buffers, List.flatMap_def]
      exact congrArg _ (List.map_congr_left fun w hw => List.take_of_length_le (h w hw))
    rw [got, List.flatMap_append, ← got, hfront, buffers_concat, List.flatMap_singleton]
    exact (List.prefix_append_right_inj _).mpr (List.take_prefix _ _)

/-- They hold after every run. -/
theorem inv_run {events : List Event} (h : AllSteps State.step Fresh .init events) :
    (events.foldl State.step .init).Inv :=
  AllSteps.invariant (I := State.Inv)
    (fun _ e hs he =>
      ⟨hs.control.step e, hs.tells.step hs.control he, hs.carries.step hs.control e⟩)
    ⟨control_init, tells_init, carries_init⟩ h

/-- Unless a device is opened while the string of an earlier close is left: no memory is used
that was freed. What the client sent since the device was opened is in the buffers that were
written to the device, in hand, or still to be read, in this order; so are what the device
delivered and, in the canonical mode, the lines of `tty_read_line`: all but the last of its calls
have returned one, and each is shown. The string that the client gets at the end is the one of
this close, and nothing follows it. -/
theorem redirect_run (events : List Event) (h : AllSteps State.step Fresh .init events) :
    let s := events.foldl State.step .init
    s.broken = false ∧
      (buffers s.written ++ s.toBeWritten ++ s.queue = s.sent ∧
        (Whole s.written → got s.written <+: s.sent)) ∧
      s.reads.reduceOption.flatten ++ s.input = s.delivered ∧
      (s.opened.mode = .raw →
        buffers s.shown ++ s.toBeShown = s.reads.reduceOption.flatten ∧
          (Whole s.shown → got s.shown <+: s.delivered)) ∧
      (s.opened.mode = .canonical → ∃ done part lines t, s.reads = done ++ part ∧
        Calls s.opened.fd s.opened.tty done lines t ∧ Lineless s.opened.fd t part ∧
        buffers s.shown ++ s.toBeShown = lines.flatten) ∧
      ∀ p, s.farewell = some p →
        s.asked = some p.1 ∧ ∀ r, s.reader = some r → r.reads = false := by
  intro s
  obtain ⟨-, htells, hcarries⟩ : s.Inv := inv_run h
  refine ⟨htells.safe, ⟨hcarries.sent, fun hwhole => ?_⟩, hcarries.delivered, fun hraw => ?_,
    fun hcanonical => ?_, fun p hp => ⟨htells.farewell p hp, htells.last (hp ▸ nofun)⟩⟩
  · refine (prefix_got hwhole).trans ?_
    rw [← hcarries.sent, List.append_assoc]
    exact List.prefix_append _ _
  · have hshown := hcarries.raw hraw
    refine ⟨hshown, fun hwhole => (prefix_got hwhole).trans ?_⟩
    rw [← hcarries.delivered, ← hshown, List.append_assoc]
    exact List.prefix_append _ _
  · obtain ⟨done, part, lines, t, hlines⟩ := hcarries.canonical hcanonical
    exact ⟨done, part, lines, t, hlines.reads, hlines.calls, hlines.lineless, hlines.shown⟩

/-- The client has sent five bytes, of which two are through, and the device has delivered
two, which the reader has in hand; a close is asked for, with a string. -/
def closeWhileWriting : List Event :=
  [.setMode .raw, .opens (some 7) .pipe false false true, .reader (some 0), .reader (some 0),
    .reader (some 0), .send [1, 2, 3, 4, 5], .writer (some 0), .deliver [6, 7], .writer (some 0),
    .reader (some 0), .writer (some 1), .reader (some 9), .close [8], .writer (some 2)] ++
    List.replicate 4 (.main true)

theorem redirect_run_whileWriting :
    let s := closeWhileWriting.foldl State.step .init
    got s.written = [1, 2] ∧ got s.written <+: s.sent :=
  ⟨by decide, (redirect_run closeWhileWriting (by decide)).2.1.2 (by decide)⟩

end AndroidLearn.Iotty
