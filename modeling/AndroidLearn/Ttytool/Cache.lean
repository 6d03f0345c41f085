import AndroidLearn.Lib.Bytes
import AndroidLearn.Lib.Framing

/-!
# `tty_read_line` and its cache

`tty_read_line` of `ttytool.c`, with `ttydb_add`, `ttydb_remove`, `ttydb_get` and
`tty_read_from_cache`. It returns one line at a time from what `read` delivers in pieces
of any size. What follows a line's `'\r'` waits in `cached`, a static array of 4096 bytes
that holds a C string, with a length of its own in `len`.

The device gives its bytes in order, and each `read` a piece of them that fits, or fails.
The array has all its bytes, those behind the string as well, since they may come up
again. One caller reads at a time.

Theorem: `ttyReadLines_framed`, for a text without NUL whose lines fit the caller's
buffer, and whose end fits the cache: the calls return its lines, however the text was cut
(`Lib.Framing`). The end has no `'\r'`, so no bound on the lines bounds it, and
`ttyReadLines_fails_unended` is what comes of a long one: a full cache gets a `'\r'` of
its own.
-/

namespace AndroidLearn.Ttytool

open Framing

/-! ## C strings -/

/-- `'\r'` -/
def cr : UInt8 := 13

/-- The C string that an array holds. -/
def cstr (a : Bytes) : Bytes := a.takeWhile (· ≠ 0)

/-- `strncpy (dst, src, n)`: short strings are padded. -/
def strncpy (dst src : Bytes) (n : Nat) : Bytes :=
  dst.writeAt 0 ((cstr src).take n ++ List.replicate (n - (cstr src).length) 0)

/-- `strncat (dst, src, n)` -/
def strncat (dst src : Bytes) (n : Nat) : Bytes :=
  dst.writeAt (cstr dst).length ((cstr src).take n ++ [0])

/-! ## The descriptors in use -/

/-- The state of a terminal. -/
inductive TtyState
  | reset
  | raw
  | canonical
  deriving DecidableEq, Repr

/-- `TTYDB`, without the saved `termios` -/
structure TtyDb where
  ttySavedFd : Nat
  ttyState : TtyState
  deriving DecidableEq, Repr

/-- The static variables `cached` and `len`. -/
structure Cache where
  cached : Bytes
  len : Nat
  deriving DecidableEq, Repr

/-- The static variables of the file. -/
structure Tty where
  glistHead : List TtyDb
  cache : Cache
  deriving DecidableEq, Repr

/-- `sizeof (cached)` -/
def cachedSize : Nat := 4096

/-- Nothing is cached. -/
def Cache.init : Cache := ⟨List.replicate cachedSize 0, 0⟩

/-- No terminal is known. -/
def Tty.init : Tty := ⟨[], Cache.init⟩

/-- `ttydb_add`, which puts the entry in front -/
def Tty.ttydbAdd (t : Tty) (fd : Nat) : Tty :=
  { t with glistHead := ⟨fd, .reset⟩ :: t.glistHead }

/-- `ttydb_remove`: the first entry of the descriptor -/
def Tty.ttydbRemove (t : Tty) (fd : Nat) : Tty :=
  { t with glistHead := t.glistHead.eraseP fun p => p.ttySavedFd = fd }

/-- The entry of a descriptor. -/
def Tty.find (t : Tty) (fd : Nat) : Option TtyDb := t.glistHead.find? fun p => p.ttySavedFd = fd

/-- `ttydb_get`: the entry, and the list with it -/
def Tty.ttydbGet (t : Tty) (fd : Nat) : TtyDb × Tty :=
  match t.find fd with
  | some p => (p, t)
  | none => (⟨fd, .reset⟩, t.ttydbAdd fd)

/-! ## The cache -/

/-- `tty_read_from_cache`: the bytes that `buf` gets, without the closing null. -/
def Cache.readFromCache (t : Cache) (count : Nat) : Option (Bytes × Cache) :=
  let s := cstr t.cached
  if t.len = 0 ∨ count < 3 ∨ cr ∉ s then none
  else
    -- adjust length to avoid overflow
    let bytesRead := min (s.takeWhile (· ≠ cr)).length (count - 2)
    let ptr := s.drop bytesRead
    let ptr := if ptr.head? = some cr then ptr.tail else ptr
    let cached := t.cached.writeAt 0 (ptr ++ [0])
    some (s.take bytesRead ++ [cr], ⟨cached, (cstr cached).length⟩)

/-- The bytes of one `read` go to the cache. -/
def Cache.store (t : Cache) (buf : Bytes) : Cache :=
  if cachedSize ≤ t.len + buf.length then
    -- cache full! data may lost!
    let cached := (strncpy t.cached buf (cachedSize - t.len)).writeAt (cachedSize - 1) [0]
    ⟨if cr ∈ cstr cached then cached else cached.writeAt (cachedSize - 2) [cr], cachedSize - 1⟩
  else ⟨strncat t.cached buf (cachedSize - (cstr t.cached).length - 1), t.len + buf.length⟩

/-! ## `tty_read_line` -/

/-- What one call of `tty_read_line` comes to. -/
inductive Outcome
  /-- still in `read`, as no more has been delivered -/
  | waiting
  /-- a negative count -/
  | error
  | line (buf : Bytes)
  deriving DecidableEq, Repr

/-- One call. `reads` is what its calls of `read` return: bytes, or nothing for an
error. The call leaves the rest of them to the next one. -/
def ttyReadLine (fd count : Nat) :
    List (Option Bytes) → Tty → Outcome × List (Option Bytes) × Tty
  | reads, t =>
    if count < 3 then (.error, reads, t)
    else
      match t.cache.readFromCache count with
      | some (line, cache) => (.line line, reads, { t with cache := cache })
      | none =>
        match reads with
        | [] => (.waiting, [], t)
        | none :: reads => (.error, reads, t)
        | some buf :: reads =>
          let (p, t) := t.ttydbGet fd
          if p.ttyState = .canonical then (.line buf, reads, t)
          else ttyReadLine fd count reads { t with cache := t.cache.store buf }

/-- What that many calls in a row return, up to one that waits or fails. -/
def ttyReadLines (fd count : Nat) : Nat → List (Option Bytes) → Tty → List Bytes
  | 0, _, _ => []
  | calls + 1, reads, t =>
    match ttyReadLine fd count reads t with
    | (.line line, reads, t) => line :: ttyReadLines fd count calls reads t
    | (.waiting, _, _) | (.error, _, _) => []

/-! ## Where lines are looked for -/

/-- Lines are looked for on the descriptor: it is not in the canonical state. -/
def Tty.Framing (t : Tty) (fd : Nat) : Prop :=
  ∀ p, t.find fd = some p → p.ttyState ≠ .canonical

/-- There, `tty_read_line` is about the cache alone: the pieces that `read` delivers
are stored until a line is in it. -/
def Cache.readLine (count : Nat) : List Bytes → Cache → Option (Bytes × List Bytes × Cache)
  | bufs, t =>
    match t.readFromCache count with
    | some (line, t) => some (line, bufs, t)
    | none =>
      match bufs with
      | [] => none
      | buf :: bufs => readLine count bufs (t.store buf)

def Cache.readLines (count : Nat) : Nat → List Bytes → Cache → List Bytes
  | 0, _, _ => []
  | calls + 1, bufs, t =>
    match t.readLine count bufs with
    | some (line, bufs, t) => line :: readLines count calls bufs t
    | none => []

section Framing

variable {t : Tty} {fd count : Nat}

/-- Looking a terminal up leaves the lines as they are. -/
theorem Tty.ttydbGet_framing (h : t.Framing fd) :
    (t.ttydbGet fd).1.ttyState ≠ .canonical ∧ (t.ttydbGet fd).2.Framing fd ∧
      (t.ttydbGet fd).2.cache = t.cache := by
  unfold ttydbGet
  cases hp : t.find fd with
  | some p => exact ⟨h p hp, h, rfl⟩
  | none =>
    refine ⟨nofun, fun p hp => ?_, rfl⟩
    obtain rfl : (⟨fd, .reset⟩ : TtyDb) = p := by simpa [find, ttydbAdd] using hp
    exact nofun

/-- A call gives a line of the cache's. -/
theorem ttyReadLine_framing (hcount : 3 ≤ count) (h : t.Framing fd) (bufs : List Bytes) :
    match t.cache.readLine count bufs with
    | some (line, bufs', cache) => ∃ t', ttyReadLine fd count (bufs.map some) t =
        (.line line, bufs'.map some, t') ∧ t'.Framing fd ∧ t'.cache = cache
    | none => (ttyReadLine fd count (bufs.map some) t).1 = .waiting := by
  induction bufs generalizing t with
  | nil =>
    unfold Cache.readLine
    rw [List.map_nil, ttyReadLine, if_neg (Nat.not_lt.mpr hcount)]
    cases t.cache.readFromCache count with
    | some r => exact ⟨_, rfl, h, rfl⟩
    | none => rfl
  | cons buf bufs ih =>
    unfold Cache.readLine
    rw [List.map_cons, ttyReadLine, if_neg (Nat.not_lt.mpr hcount)]
    cases t.cache.readFromCache count with
    | some r => exact ⟨_, rfl, h, rfl⟩
    | none =>
      obtain ⟨hstate, hframing, hcache⟩ := Tty.ttydbGet_framing h
      dsimp only
      rw [if_neg hstate, ← hcache]
      exact ih (t := { (t.ttydbGet fd).2 with cache := (t.ttydbGet fd).2.cache.store buf }) hframing

theorem ttyReadLines_framing (hcount : 3 ≤ count) (h : t.Framing fd) (calls : Nat)
    (bufs : List Bytes) :
    ttyReadLines fd count calls (bufs.map some) t = t.cache.readLines count calls bufs := by
  induction calls generalizing t bufs with
  | zero => rfl
  | succ calls ih =>
    have hcall := ttyReadLine_framing hcount h bufs
    rw [ttyReadLines, Cache.readLines]
    cases hr : t.cache.readLine count bufs with
    | some r =>
      obtain ⟨line, bufs', cache⟩ := r
      rw [hr] at hcall
      obtain ⟨t', heq, hframing, rfl⟩ := hcall
      rw [heq]
      exact congrArg (List.cons line) (ih hframing bufs')
    | none =>
      rw [hr] at hcall
      split
      next heq =>
        rw [heq] at hcall
        exact nomatch hcall
      next => rfl
      next => rfl

end Framing

/-! ## What the string operations do -/

section Cstr

variable {a d src : Bytes} {n : Nat}

theorem cstr_free (a : Bytes) : (0 : UInt8) ∉ cstr a := not_mem_takeWhile 0 a

theorem cstr_append (hd : (0 : UInt8) ∉ d) (rest : Bytes) : cstr (d ++ 0 :: rest) = d :=
  takeWhile_sep hd rest

theorem cstr_eq_self (hd : (0 : UInt8) ∉ d) : cstr d = d := takeWhile_free hd

theorem take_cstr (a : Bytes) : a.take (cstr a).length = cstr a :=
  List.prefix_iff_eq_take.mp (List.takeWhile_prefix _) |>.symm

/-- A string that was written is read. -/
theorem cstr_writeAt_zero (hd : (0 : UInt8) ∉ d) (hfit : d.length < a.length) :
    cstr (a.writeAt 0 (d ++ [0])) = d := by
  rw [Bytes.writeAt_eq (by simp; omega)]
  simpa using cstr_append hd _

/-- `strncat`, where there is room. -/
theorem cstr_strncat (hn : (cstr src).length ≤ n)
    (hfit : (cstr a).length + (cstr src).length < a.length) :
    cstr (strncat a src n) = cstr a ++ cstr src ∧ (strncat a src n).length = a.length := by
  unfold strncat
  rw [List.take_of_length_le hn]
  have hin : (cstr a).length + (cstr src ++ [0]).length ≤ a.length := by
    rw [List.length_append, List.length_singleton]
    omega
  refine ⟨?_, Bytes.length_writeAt hin⟩
  rw [Bytes.writeAt_eq hin, take_cstr]
  have hfree : (0 : UInt8) ∉ cstr a ++ cstr src := by
    rw [List.mem_append]
    exact not_or.mpr ⟨cstr_free a, cstr_free src⟩
  simpa using cstr_append hfree _

end Cstr

/-! ## The cache as its text -/

/-- The cache holds the text, and nothing has been lost. -/
structure Cache.Holds (t : Cache) (held : Bytes) : Prop where
  size : t.cached.length = cachedSize
  text : cstr t.cached = held
  len : t.len = held.length

section Holds

variable {t : Cache} {held line rest buf : Bytes} {count : Nat}

/-- Without a line end there is no line. -/
theorem Cache.Holds.readFromCache_none (h : t.Holds held) (hcr : cr ∉ held) (count : Nat) :
    t.readFromCache count = none := by
  unfold readFromCache
  rw [h.text]
  exact if_pos (.inr (.inr hcr))

/-- The first line is given, and the rest stays. -/
theorem Cache.readFromCache_line (hsize : t.cached.length = cachedSize)
    (htext : cstr t.cached = line ++ cr :: rest) (hlen : t.len ≠ 0) (hline : cr ∉ line)
    (hcount : 3 ≤ count) (hfit : line.length ≤ count - 2) :
    ∃ t', t.readFromCache count = some (line ++ [cr], t') ∧ t'.Holds rest := by
  have hpre := takeWhile_sep hline rest
  have hnotnone : ¬ (t.len = 0 ∨ count < 3 ∨ cr ∉ line ++ cr :: rest) := by
    rintro (h | h | h)
    · exact hlen h
    · omega
    · exact h (by simp)
  have hin : rest.length < t.cached.length := by
    have hprefix : (cstr t.cached).length ≤ t.cached.length := (List.takeWhile_prefix _).length_le
    rw [htext, List.length_append, List.length_cons] at hprefix
    omega
  have hfree : (0 : UInt8) ∉ rest := by
    have hall := cstr_free t.cached
    rw [htext] at hall
    intro hmem
    exact hall (by simp [hmem])
  let cached := t.cached.writeAt 0 (rest ++ [0])
  have hcstr : cstr cached = rest := cstr_writeAt_zero hfree hin
  have hlength : cached.length = t.cached.length :=
    Bytes.length_writeAt (by rw [List.length_append, List.length_singleton]; omega)
  refine ⟨⟨cached, (cstr cached).length⟩, ?_, hlength.trans hsize, hcstr, congrArg List.length hcstr⟩
  unfold readFromCache
  rw [htext]
  dsimp only
  rw [if_neg hnotnone, hpre, Nat.min_eq_left hfit]
  simp only [List.drop_left, List.take_left, List.head?_cons, if_true, List.tail_cons]
  rfl

theorem Cache.Holds.readFromCache_line (h : t.Holds (line ++ cr :: rest)) (hline : cr ∉ line)
    (hcount : 3 ≤ count) (hfit : line.length ≤ count - 2) :
    ∃ t', t.readFromCache count = some (line ++ [cr], t') ∧ t'.Holds rest := by
  refine Cache.readFromCache_line h.size h.text ?_ hline hcount hfit
  rw [h.len, List.length_append, List.length_cons]
  omega

/-- A cached line is given without a read. -/
theorem Cache.readLine_cached {t' : Cache} (h : t.readFromCache count = some (line, t'))
    (bufs : List Bytes) : t.readLine count bufs = some (line, bufs, t') := by
  unfold readLine
  rw [h]

/-- What was read is held. -/
theorem Cache.Holds.store (h : t.Holds held) (hbuf : (0 : UInt8) ∉ buf)
    (hfit : held.length + buf.length < cachedSize) : (t.store buf).Holds (held ++ buf) := by
  have hlen : ¬ cachedSize ≤ t.len + buf.length := by
    rw [h.len]
    omega
  have hroom : buf.length ≤ cachedSize - (cstr t.cached).length - 1 := by
    rw [h.text]
    omega
  rw [← cstr_eq_self hbuf] at hroom hfit
  have hcat := cstr_strncat hroom (by rw [h.text, h.size]; exact hfit)
  rw [cstr_eq_self hbuf] at hcat
  unfold Cache.store
  rw [if_neg hlen]
  refine ⟨hcat.2.trans h.size, by rw [← h.text]; exact hcat.1, ?_⟩
  rw [h.len, List.length_append]

end Holds

/-! ## The lines of a text -/

section Lines

variable {fd count : Nat} {t : Cache} {held tail : Bytes} {bufs lines : List Bytes}

/-- What one call comes to: the first line, if it ends, or a wait for the rest. -/
inductive Called (count : Nat) (t : Cache) (bufs lines : List Bytes) (tail : Bytes) : Prop
  | waits (hlines : lines = []) (hcall : t.readLine count bufs = none)
  | returns (line : Bytes) (more bufs' : List Bytes) (t' : Cache) (held' : Bytes)
      (hlines : lines = line :: more) (hcall : t.readLine count bufs = some (line ++ [cr], bufs', t'))
      (ht' : t'.Holds held') (hstream' : Framed cr (held' ++ bufs'.flatten) more tail)
      (hbufs' : ∀ buf ∈ bufs', buf ∈ bufs)

/-- A call that finds its line. -/
theorem called_cached (hcount : 3 ≤ count) (ht : t.Holds held)
    (hstream : Framed cr (held ++ bufs.flatten) lines tail)
    (hlines : ∀ line ∈ lines, line.length ≤ count - 2) (hheld : cr ∈ held) :
    Called count t bufs lines tail := by
  obtain ⟨line, more, rest, rfl, rfl, hfree, hrest⟩ := hstream.next hheld
  obtain ⟨t', hread, ht'⟩ := ht.readFromCache_line hfree hcount (hlines line List.mem_cons_self)
  exact .returns line more bufs t' rest rfl (Cache.readLine_cached hread bufs) ht' hrest fun _ h => h

/-- A call in general. -/
theorem called (hcount : 3 ≤ count) (hmax : count ≤ 2048) (ht : t.Holds held)
    (hbufs : ∀ buf ∈ bufs, buf.length ≤ count ∧ (0 : UInt8) ∉ buf)
    (hstream : Framed cr (held ++ bufs.flatten) lines tail)
    (hlines : ∀ line ∈ lines, line.length ≤ count - 2) (htail : tail.length < cachedSize) :
    Called count t bufs lines tail := by
  induction bufs generalizing t held with
  | nil =>
    by_cases hheld : cr ∈ held
    · exact called_cached hcount ht hstream hlines hheld
    · refine .waits ?_ ?_
      · cases lines with
        | nil => rfl
        | cons line more =>
          obtain ⟨-, rest, heq, -⟩ := Framed.cons_iff.mp hstream
          rw [List.flatten_nil, List.append_nil] at heq
          exact absurd (by simp [heq]) hheld
      · rw [Cache.readLine, ht.readFromCache_none hheld]
  | cons buf bufs ih =>
    by_cases hheld : cr ∈ held
    · exact called_cached hcount ht hstream hlines hheld
    · obtain ⟨hlen, hnul⟩ := hbufs buf List.mem_cons_self
      rw [List.flatten_cons] at hstream
      -- what is held is short, unless it is all that will ever come
      have hfit : held.length + buf.length < cachedSize := by
        rcases hstream.held_prefix hheld with ⟨line, hline, hprefix⟩ | ⟨-, heq⟩
        · have hle := hprefix.length_le
          have hmaxline := hlines line hline
          unfold cachedSize
          omega
        · have hall := congrArg List.length heq
          simp only [List.length_append] at hall
          omega
      rw [← List.append_assoc] at hstream
      have hstep : t.readLine count (buf :: bufs) = (t.store buf).readLine count bufs := by
        rw [Cache.readLine, ht.readFromCache_none hheld]
      have hrest := ih (ht.store hnul hfit) (fun b hb => hbufs b (List.mem_cons_of_mem _ hb)) hstream
      cases hrest with
      | waits hnil hcall => exact .waits hnil (hstep.trans hcall)
      | returns line more bufs' t' held' hcons hcall hholds hstream' hbufs' =>
        exact .returns line more bufs' t' held' hcons (hstep.trans hcall) hholds hstream'
          fun b hb => List.mem_cons_of_mem _ (hbufs' b hb)

/-- All lines, one after the other. -/
theorem readLines_framed (hcount : 3 ≤ count) (hmax : count ≤ 2048) (ht : t.Holds held)
    (hbufs : ∀ buf ∈ bufs, buf.length ≤ count ∧ (0 : UInt8) ∉ buf)
    (hstream : Framed cr (held ++ bufs.flatten) lines tail)
    (hlines : ∀ line ∈ lines, line.length ≤ count - 2) (htail : tail.length < cachedSize)
    (calls : Nat) :
    t.readLines count calls bufs = (lines.take calls).map fun line => line ++ [cr] := by
  induction calls generalizing t held bufs lines with
  | zero => simp [Cache.readLines]
  | succ calls ih =>
    rw [Cache.readLines]
    cases called hcount hmax ht hbufs hstream hlines htail with
    | waits hnil hcall =>
      rw [hnil, hcall]
      rfl
    | returns line more bufs' t' held' hcons hcall hholds hstream' hbufs' =>
      subst hcons
      have hmore := ih hholds (fun b hb => hbufs b (hbufs' b hb)) hstream'
        fun l hl => hlines l (List.mem_cons_of_mem _ hl)
      rw [hcall]
      dsimp only
      rw [hmore, List.take_succ_cons, List.map_cons]

/-- For a text without nulls, whose lines fit the caller's buffer, the calls return its
lines in order, each once, however the text was cut for the calls of `read`. What follows
the last `'\r'` is no line yet; it is to fit the cache, as any part of a line does. -/
theorem ttyReadLines_framed {t : Tty} (hcount : 3 ≤ count) (hmax : count ≤ 2048)
    (ht : t.cache.Holds []) (hfd : t.Framing fd) (hread : ∀ buf ∈ bufs, buf.length ≤ count)
    (hnul : ∀ buf ∈ bufs, (0 : UInt8) ∉ buf) (hstream : Framed cr bufs.flatten lines tail)
    (hlines : ∀ line ∈ lines, line.length ≤ count - 2) (htail : tail.length < cachedSize)
    (calls : Nat) :
    ttyReadLines fd count calls (bufs.map some) t =
      (lines.take calls).map fun line => line ++ [cr] := by
  rw [ttyReadLines_framing hcount hfd]
  exact readLines_framed hcount hmax ht (fun b hb => ⟨hread b hb, hnul b hb⟩) hstream hlines htail
    calls

/-- `ab`, an empty line and the start of a third one, in pieces. -/
theorem ttyReadLines_framed_example :
    ttyReadLines 7 4 5 ([[97], [98, cr, cr], [99]].map some) (Tty.init.ttydbAdd 7) =
      [[97, 98, cr], [cr]] := by
  have hstream : Framed cr [[97], [98, cr, cr], [99]].flatten [[97, 98], []] [99] :=
    ⟨by decide, by decide, by decide⟩
  have ht : (Tty.init.ttydbAdd 7).cache.Holds [] := ⟨by decide +kernel, by decide +kernel, by decide⟩
  have hfd : (Tty.init.ttydbAdd 7).Framing 7 := by
    intro p hp
    obtain rfl : (⟨7, .reset⟩ : TtyDb) = p := by simpa [Tty.find, Tty.ttydbAdd] using hp
    exact nofun
  exact ttyReadLines_framed (by decide) (by decide) ht hfd (by decide) (by decide) hstream
    (by decide) (by decide) 5

/-- The second line is never ended. 4094 of its bytes are held when two more come: the cache
is full, its last byte becomes a `'\r'`, and a second line is returned. -/
theorem ttyReadLines_fails_unended :
    ¬ ∀ (bufs lines : List Bytes) (tail : Bytes) (calls : Nat),
      (∀ buf ∈ bufs, buf.length ≤ 2048) → (∀ buf ∈ bufs, (0 : UInt8) ∉ buf) →
      Framed cr bufs.flatten lines tail → (∀ line ∈ lines, line.length ≤ 2048 - 2) →
      ttyReadLines 7 2048 calls (bufs.map some) (Tty.init.ttydbAdd 7) =
        (lines.take calls).map fun line => line ++ [cr] := by
  intro hall
  let bufs : List Bytes :=
    [98 :: cr :: List.replicate 2046 97, List.replicate 2048 97, List.replicate 2 97]
  have hread : ∀ buf ∈ bufs, buf.length ≤ 2048 := by decide +kernel
  have hnul : ∀ buf ∈ bufs, (0 : UInt8) ∉ buf := by decide +kernel
  have hstream : Framed cr bufs.flatten [[98]] (List.replicate 4096 97) := by
    refine ⟨?_, by decide, by decide +kernel⟩
    rw [show 4096 = 2046 + (2048 + 2) from rfl, List.replicate_add, List.replicate_add]
    rfl
  have htwo : (ttyReadLines 7 2048 2 (bufs.map some) (Tty.init.ttydbAdd 7)).length = 2 := by
    decide +kernel
  rw [hall bufs _ _ 2 hread hnul hstream (by decide)] at htwo
  exact absurd htwo (by decide)

end Lines

end AndroidLearn.Ttytool
