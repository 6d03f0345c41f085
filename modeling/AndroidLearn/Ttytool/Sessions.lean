import AndroidLearn.Ttytool.Cache

/-!
# Sessions on different descriptors

`tty_canonical`, `tty_raw`, `tty_reset` and `tty_close` of `ttytool.c`, and the command
`:read:` of `iotty.c`. `cached` and `len` are variables of the file, not of the
descriptor: neither `tty_open` nor `tty_close` touches them. What one session has left in
them, a later one gets.

A history is any list of operations on descriptors, each with what the device delivers to
it, and a session begins where its descriptor is opened. Two histories are kept apart if
what follows returns the same behind both.

Also what stands behind the end of the cached string counts, as `tty_read_line` uncovers
it when the cache overflows: the arrays are compared byte by byte.

Theorem: `sessionsIsolated_iff`: two histories are kept apart from what follows exactly
when each has left the cache as it was at the start, byte by byte.
-/

namespace AndroidLearn.Ttytool

/-! ## Histories -/

/-- `p->tty_state = state` of the descriptor's entry; no descriptor has two of them. -/
def Tty.setState (t : Tty) (fd : Nat) (state : TtyState) : Tty :=
  { t with
    glistHead := t.glistHead.map fun p =>
      if p.ttySavedFd = fd then { p with ttyState := state } else p }

/-- `tty_canonical`. `got` and `set`: could the attributes be read, and do the new ones stick? -/
def ttyCanonical (fd : Nat) (got set : Bool) (t : Tty) : Tty :=
  if !got then t
  else
    let (_, t) := t.ttydbGet fd
    if set then t.setState fd .canonical else t

/-- `tty_raw` -/
def ttyRaw (fd : Nat) (got set : Bool) (t : Tty) : Tty :=
  let (p, t) := t.ttydbGet fd
  if p.ttyState ≠ .reset ∨ !got ∨ !set then t else t.setState fd .raw

/-- `tty_reset` -/
def ttyReset (fd : Nat) (set : Bool) (t : Tty) : Tty :=
  let (p, t) := t.ttydbGet fd
  if p.ttyState = .reset ∨ !set then t else t.setState fd .reset

/-- `tty_close` -/
def ttyClose (fd : Nat) (set : Bool) (t : Tty) : Tty := (ttyReset fd set t).ttydbRemove fd

/-- The tool and the kernel's descriptors. -/
structure Device where
  tty : Tty
  /-- the open descriptors -/
  opened : List Nat

/-- No descriptor is open. -/
def Device.init : Device := ⟨Tty.init, []⟩

/-- An operation of the tool. -/
inductive Op
  /-- `tty_open`, which the kernel gives a descriptor that is not in use -/
  | opens (fd : Nat)
  | canonical (fd : Nat) (got set : Bool)
  | raw (fd : Nat) (got set : Bool)
  | reset (fd : Nat) (set : Bool)
  | close (fd : Nat) (set : Bool)
  /-- one call of `tty_read_line` -/
  | readLine (fd count : Nat) (reads : List (Option Bytes))

/-- A descriptor that is not open has no attributes, and `read` fails on it. -/
def Device.step (d : Device) : Op → Device
  | .opens fd => if fd ∈ d.opened then d else { d with opened := fd :: d.opened }
  | .canonical fd got set => { d with tty := ttyCanonical fd (got && d.opened.contains fd) set d.tty }
  | .raw fd got set => { d with tty := ttyRaw fd (got && d.opened.contains fd) set d.tty }
  | .reset fd set => { d with tty := ttyReset fd (set && d.opened.contains fd) d.tty }
  | .close fd set =>
    { tty := ttyClose fd (set && d.opened.contains fd) d.tty, opened := d.opened.filter (· ≠ fd) }
  | .readLine fd count reads =>
    let reads := if fd ∈ d.opened then reads else [none]
    { d with tty := (ttyReadLine fd count reads d.tty).2.2 }

/-- What went before, and the descriptor that is opened at the end of it. -/
structure History where
  ops : List Op
  fd : Nat
  unused : fd ∉ (ops.foldl Device.step Device.init).opened

/-- Nothing went before. -/
def History.first (fd : Nat) : History := ⟨[], fd, List.not_mem_nil⟩

/-- The tool behind a history. -/
def History.tty (h : History) : Tty := (h.ops.foldl Device.step Device.init).tty

/-- The lines of that many calls on the new descriptor, on which `bufs` are delivered. -/
def History.lines (h : History) (count calls : Nat) (bufs : List Bytes) : List Bytes :=
  ttyReadLines h.fd count calls (bufs.map some) h.tty

/-- The property of two histories. -/
structure Isolated (h₁ h₂ : History) : Prop where
  /-- the same bytes in the same pieces give the same lines -/
  same : ∀ count calls bufs, (∀ buf ∈ bufs, buf.length ≤ count) →
    h₁.lines count calls bufs = h₂.lines count calls bufs
  /-- and no byte that came earlier: they are the lines of the new bytes alone -/
  own : ∀ h ∈ [h₁, h₂], ∀ count calls bufs, (∀ buf ∈ bufs, buf.length ≤ count) →
    h.lines count calls bufs = (History.first h.fd).lines count calls bufs

/-- The cache is as it was before anything was received. -/
def History.Clean (h : History) : Prop := h.tty.cache = Cache.init

/-! ## What every history keeps -/

/-- The array ends with a null, and `len` is no less than the length of the string. -/
structure Cache.Sound (t : Cache) : Prop where
  size : t.cached.length = cachedSize
  last : t.cached[cachedSize - 1]? = some 0
  text : (cstr t.cached).length ≤ t.len
  len : t.len < cachedSize

section Cstr

variable {a : Bytes} {i : Nat}

/-- The string ends at the first null. -/
theorem cstr_length_le (h : a[i]? = some 0) : (cstr a).length ≤ i := by
  by_contra hlt
  have hin : (cstr a)[i]? = some 0 := by
    rw [← take_cstr, List.getElem?_take, if_pos (by omega), h]
  exact cstr_free a (List.mem_of_getElem? hin)

/-- A string ends with a null byte. -/
theorem getElem?_cstr_length (h : (cstr a).length < a.length) : a[(cstr a).length]? = some 0 := by
  by_cases hmem : (0 : UInt8) ∈ a
  · obtain ⟨front, rest, rfl, hfree⟩ := List.eq_append_cons_of_mem hmem
    rw [cstr_append hfree]
    simp
  · rw [cstr_eq_self hmem] at h
    exact absurd h (Nat.lt_irrefl _)

end Cstr

section Sound

variable {t : Cache} {buf d : Bytes} {n off : Nat}

/-- A write that ends with a null, or that ends before the last byte, keeps the last null. -/
theorem last_writeAt {a : Bytes} (ha : a.length = cachedSize) (hlast : a[cachedSize - 1]? = some 0)
    (hin : off + d.length ≤ cachedSize)
    (hd : off + d.length = cachedSize → d ≠ [] → d.getLast? = some 0) :
    (a.writeAt off d).length = cachedSize ∧ (a.writeAt off d)[cachedSize - 1]? = some 0 := by
  have hfit : off + d.length ≤ a.length := by rw [ha]; exact hin
  refine ⟨(Bytes.length_writeAt hfit).trans ha, ?_⟩
  rw [Bytes.getElem?_writeAt hfit]
  split
  next => exact hlast
  next hoff =>
    split
    next hlt =>
      have hend : off + d.length = cachedSize := by omega
      have hne : d ≠ [] := by
        rintro rfl
        simp only [List.length_nil] at hlt hend
        omega
      rw [← hd hend hne, List.getLast?_eq_getElem?]
      congr 1
      omega
    next => exact hlast

theorem Cache.Sound.text_lt (h : t.Sound) : (cstr t.cached).length < cachedSize :=
  Nat.lt_of_le_of_lt h.text h.len

/-- A line that is taken out leaves the cache sound. -/
theorem Cache.Sound.readFromCache {line : Bytes} {t' : Cache} {count : Nat} (h : t.Sound)
    (hread : t.readFromCache count = some (line, t')) : t'.Sound := by
  unfold Cache.readFromCache at hread
  dsimp only at hread
  split at hread
  next => exact nomatch hread
  next =>
    obtain ⟨-, rfl⟩ := Prod.ext_iff.mp (Option.some.inj hread)
    -- what is moved to the front is part of the string
    have hptr : ∀ (ptr : Bytes), ptr.length ≤ (cstr t.cached).length →
        (⟨t.cached.writeAt 0 (ptr ++ [0]), (cstr (t.cached.writeAt 0 (ptr ++ [0]))).length⟩ :
          Cache).Sound := by
      intro ptr hle
      have hlt := h.text_lt
      have hin : 0 + (ptr ++ [0]).length ≤ cachedSize := by
        rw [List.length_append, List.length_singleton]
        omega
      obtain ⟨hsize, hlast⟩ := last_writeAt h.size h.last hin fun _ _ => by simp
      have htext := cstr_length_le hlast
      exact ⟨hsize, hlast, Nat.le_refl _, by unfold cachedSize at *; dsimp only; omega⟩
    refine hptr _ ?_
    split
    · rw [List.length_tail, List.length_drop]
      omega
    · rw [List.length_drop]
      omega

theorem Cache.Sound.store (h : t.Sound) (buf : Bytes) : (t.store buf).Sound := by
  have hlen := h.len
  unfold Cache.store
  dsimp only
  split
  next hfull =>
    have hcopied : (strncpy t.cached buf (cachedSize - t.len)).length = cachedSize := by
      unfold strncpy
      refine (Bytes.length_writeAt ?_).trans h.size
      rw [h.size, List.length_append, List.length_take, List.length_replicate]
      omega
    have hend : cachedSize - 1 + [(0 : UInt8)].length ≤
        (strncpy t.cached buf (cachedSize - t.len)).length := by
      rw [hcopied]
      decide
    have hsize := (Bytes.length_writeAt hend).trans hcopied
    have hlast : ((strncpy t.cached buf (cachedSize - t.len)).writeAt (cachedSize - 1) [0])[
        cachedSize - 1]? = some 0 := by
      rw [Bytes.getElem?_writeAt hend, if_neg (Nat.lt_irrefl _), if_pos (by decide), Nat.sub_self]
      rfl
    have hfull : cachedSize - 1 < cachedSize := by decide
    split
    next => exact ⟨hsize, hlast, cstr_length_le hlast, hfull⟩
    next =>
      have hin : cachedSize - 2 + [cr].length ≤ cachedSize := by decide
      obtain ⟨hsize', hlast'⟩ := last_writeAt hsize hlast hin fun heq => absurd heq (by decide)
      exact ⟨hsize', hlast', cstr_length_le hlast', hfull⟩
  next hroom =>
    have hbuf : (cstr buf).length ≤ buf.length := (List.takeWhile_prefix _).length_le
    have htext := h.text
    have hn : (cstr buf).length ≤ cachedSize - (cstr t.cached).length - 1 := by omega
    obtain ⟨hcat, hsize⟩ := cstr_strncat hn (by rw [h.size]; omega)
    refine ⟨hsize.trans h.size, ?_, ?_, by dsimp only; omega⟩
    · refine (last_writeAt h.size h.last ?_ fun _ _ => by simp).2
      rw [List.length_append, List.length_singleton, List.length_take]
      omega
    · rw [hcat, List.length_append]
      dsimp only
      omega

end Sound

/-- The entries: one for a descriptor, and canonical ones for open descriptors alone. -/
structure Tty.Table (t : Tty) (opened : List Nat) : Prop where
  nodup : (t.glistHead.map TtyDb.ttySavedFd).Nodup
  canonical : ∀ p ∈ t.glistHead, p.ttyState = .canonical → p.ttySavedFd ∈ opened

section Table

variable {t : Tty} {opened : List Nat} {fd : Nat}

/-- Looking a terminal up keeps the table. -/
theorem Tty.Table.get (h : t.Table opened) (fd : Nat) : (t.ttydbGet fd).2.Table opened := by
  unfold ttydbGet
  cases hp : t.find fd with
  | some p => exact h
  | none =>
    refine ⟨?_, fun p hp hstate => ?_⟩
    · rw [ttydbAdd, List.map_cons, List.nodup_cons]
      refine ⟨fun hmem => ?_, h.nodup⟩
      obtain ⟨p, hmem, heq⟩ := List.mem_map.mp hmem
      exact List.find?_eq_none.mp hp p hmem (by simpa using heq)
    · rcases List.mem_cons.mp hp with rfl | hp
      · cases hstate
      · exact h.canonical p hp hstate

theorem Tty.Table.setState (h : t.Table opened) {state : TtyState}
    (hstate : state = .canonical → fd ∈ opened) : (t.setState fd state).Table opened := by
  refine ⟨?_, fun p hp hcanonical => ?_⟩
  · have hfds : (t.setState fd state).glistHead.map TtyDb.ttySavedFd =
        t.glistHead.map TtyDb.ttySavedFd := by
      rw [Tty.setState, List.map_map]
      refine List.map_congr_left fun p _ => ?_
      dsimp only [Function.comp]
      split <;> rfl
    rw [hfds]
    exact h.nodup
  · obtain ⟨q, hq, rfl⟩ := List.mem_map.mp hp
    split at hcanonical
    next heq =>
      rw [if_pos heq, heq]
      exact hstate hcanonical
    next hne =>
      rw [if_neg hne]
      exact h.canonical q hq hcanonical

theorem Tty.Table.remove (h : t.Table opened) (fd : Nat) :
    (t.ttydbRemove fd).Table (opened.filter (· ≠ fd)) := by
  have hsub : (t.ttydbRemove fd).glistHead.Sublist t.glistHead := List.eraseP_sublist
  refine ⟨h.nodup.sublist (hsub.map _), fun p hp hcanonical => ?_⟩
  refine List.mem_filter.mpr ⟨h.canonical p (hsub.subset hp) hcanonical, decide_eq_true ?_⟩
  rintro rfl
  -- the erased entry and `p` would be two entries of one descriptor
  obtain ⟨q, front, back, -, hq, heq, herase⟩ :=
    List.exists_of_eraseP (p := fun q : TtyDb => q.ttySavedFd = p.ttySavedFd) (hsub.subset hp)
      (by simp)
  have hnodup := h.nodup
  rw [heq, List.map_append, List.map_cons, List.perm_middle.nodup_iff, List.nodup_cons] at hnodup
  refine hnodup.1 ?_
  rw [← List.map_append, of_decide_eq_true hq]
  refine List.mem_map_of_mem ?_
  rw [← herase]
  exact hp

theorem Tty.Table.readLine (h : t.Table opened) (fd count : Nat) (reads : List (Option Bytes)) :
    (ttyReadLine fd count reads t).2.2.Table opened := by
  induction reads generalizing t with
  | nil =>
    rw [ttyReadLine]
    split
    · exact h
    · split
      · exact ⟨h.nodup, h.canonical⟩
      · exact h
  | cons r reads ih =>
    unfold ttyReadLine
    split
    · exact h
    · split
      · exact ⟨h.nodup, h.canonical⟩
      · cases r with
        | none => exact h
        | some buf =>
          have hget := h.get fd
          dsimp only
          split
          · exact hget
          · exact ih ⟨hget.nodup, hget.canonical⟩

end Table

/-- What every history keeps. -/
structure Device.Valid (d : Device) : Prop where
  cache : d.tty.cache.Sound
  table : d.tty.Table d.opened

section Valid

variable {t : Tty} {opened : List Nat} {d : Device}

@[simp] theorem Tty.ttydbGet_cache (t : Tty) (fd : Nat) : (t.ttydbGet fd).2.cache = t.cache := by
  unfold ttydbGet
  split <;> rfl

/-- No change of state touches the cache. -/
theorem ttyCanonical_cache (fd : Nat) (got set : Bool) (t : Tty) :
    (ttyCanonical fd got set t).cache = t.cache := by
  unfold ttyCanonical
  dsimp only
  split
  · rfl
  · split <;> exact t.ttydbGet_cache fd

theorem ttyRaw_cache (fd : Nat) (got set : Bool) (t : Tty) :
    (ttyRaw fd got set t).cache = t.cache := by
  unfold ttyRaw
  dsimp only
  split <;> exact t.ttydbGet_cache fd

theorem ttyReset_cache (fd : Nat) (set : Bool) (t : Tty) : (ttyReset fd set t).cache = t.cache := by
  unfold ttyReset
  dsimp only
  split <;> exact t.ttydbGet_cache fd

/-- The calls are all that changes the cache. -/
theorem step_cache (d : Device) (o : Op) (h : ∀ fd count reads, o ≠ .readLine fd count reads) :
    (d.step o).tty.cache = d.tty.cache := by
  cases o with
  | opens fd =>
    unfold Device.step
    dsimp only
    split <;> rfl
  | canonical fd got set => exact ttyCanonical_cache ..
  | raw fd got set => exact ttyRaw_cache ..
  | reset fd set => exact ttyReset_cache ..
  | close fd set => exact ttyReset_cache ..
  | readLine fd count reads => exact absurd rfl (h fd count reads)

/-- `tty_canonical` keeps the table. -/
theorem ttyCanonical_table (h : t.Table opened) (fd : Nat) {got : Bool}
    (hfd : got = true → fd ∈ opened) (set : Bool) : (ttyCanonical fd got set t).Table opened := by
  cases got with
  | false => exact h
  | true =>
    have hget := h.get fd
    cases set with
    | false => exact hget
    | true => exact hget.setState fun _ => hfd rfl

theorem ttyRaw_table (h : t.Table opened) (fd : Nat) (got set : Bool) :
    (ttyRaw fd got set t).Table opened := by
  have hget := h.get fd
  unfold ttyRaw
  dsimp only
  split
  · exact hget
  · exact hget.setState nofun

theorem ttyReset_table (h : t.Table opened) (fd : Nat) (set : Bool) :
    (ttyReset fd set t).Table opened := by
  have hget := h.get fd
  unfold ttyReset
  dsimp only
  split
  · exact hget
  · exact hget.setState nofun

/-- A read keeps the cache sound. -/
theorem ttyReadLine_sound (h : t.cache.Sound) (fd count : Nat) (reads : List (Option Bytes)) :
    (ttyReadLine fd count reads t).2.2.cache.Sound := by
  induction reads generalizing t with
  | nil =>
    unfold ttyReadLine
    split
    · exact h
    · split
      next hread => exact h.readFromCache hread
      next => exact h
  | cons r reads ih =>
    unfold ttyReadLine
    split
    · exact h
    · split
      next hread => exact h.readFromCache hread
      next =>
        cases r with
        | none => exact h
        | some buf =>
          have hget : (t.ttydbGet fd).2.cache.Sound := (t.ttydbGet_cache fd).symm ▸ h
          dsimp only
          split
          · exact hget
          · exact ih (hget.store buf)

/-- Every operation keeps the device valid. -/
theorem Device.Valid.step (h : d.Valid) (o : Op) : (d.step o).Valid := by
  have hopen : ∀ {flag : Bool} {fd : Nat}, (flag && d.opened.contains fd) = true → fd ∈ d.opened := by
    intro flag fd hflag
    exact List.contains_iff_mem.mp (Bool.and_eq_true_iff.mp hflag).2
  cases o with
  | opens fd =>
    unfold Device.step
    dsimp only
    split
    · exact h
    · exact ⟨h.cache, h.table.nodup, fun p hp hstate =>
        List.mem_cons_of_mem _ (h.table.canonical p hp hstate)⟩
  | canonical fd got set =>
    exact ⟨(ttyCanonical_cache ..).symm ▸ h.cache, ttyCanonical_table h.table fd hopen set⟩
  | raw fd got set => exact ⟨(ttyRaw_cache ..).symm ▸ h.cache, ttyRaw_table h.table fd _ set⟩
  | reset fd set => exact ⟨(ttyReset_cache ..).symm ▸ h.cache, ttyReset_table h.table fd _⟩
  | close fd set =>
    exact ⟨(ttyReset_cache ..).symm ▸ h.cache, (ttyReset_table h.table fd _).remove fd⟩
  | readLine fd count reads =>
    exact ⟨ttyReadLine_sound h.cache fd count _, h.table.readLine fd count _⟩

theorem init_valid : Device.init.Valid where
  cache := ⟨by decide +kernel, by decide +kernel, by decide +kernel, by decide⟩
  table := ⟨List.nodup_nil, fun _ hp => absurd hp List.not_mem_nil⟩

theorem History.valid (h : History) : (h.ops.foldl Device.step Device.init).Valid := by
  have hrun : ∀ (ops : List Op) (d : Device), d.Valid → (ops.foldl Device.step d).Valid := by
    intro ops
    induction ops with
    | nil => exact fun d hd => hd
    | cons o ops ih => exact fun d hd => ih _ (hd.step o)
  exact hrun h.ops Device.init init_valid

/-- The new descriptor is not in the canonical state. -/
theorem History.framing (h : History) : h.tty.Framing h.fd := by
  intro p hp hstate
  unfold Tty.find at hp
  have hmem := h.valid.table.canonical p (List.mem_of_find?_eq_some hp) hstate
  have hfd : p.ttySavedFd = h.fd := by simpa using List.find?_some hp
  exact h.unused (hfd ▸ hmem)

/-- So its lines are those of the cache alone. -/
theorem History.lines_eq (h : History) {count : Nat} (hcount : 3 ≤ count) (calls : Nat)
    (bufs : List Bytes) : h.lines count calls bufs = h.tty.cache.readLines count calls bufs :=
  ttyReadLines_framing hcount h.framing calls bufs

end Valid

/-! ## What the cache gives away -/

section Probe

variable {t u : Cache} {buf line : Bytes} {bufs : List Bytes} {count n : Nat}

/-- Two caches that no delivery tells apart. -/
def Cache.Alike (t u : Cache) : Prop :=
  ∀ count calls bufs, 3 ≤ count → (∀ buf ∈ bufs, buf.length ≤ count) →
    t.readLines count calls bufs = u.readLines count calls bufs

/-- Where there is a line end there is a line. -/
theorem readFromCache_isSome (hlen : t.len ≠ 0) (hcr : cr ∈ cstr t.cached) (hcount : 3 ≤ count) :
    (t.readFromCache count).isSome = true := by
  unfold Cache.readFromCache
  dsimp only
  rw [if_neg (by
    rintro (h | h | h)
    · exact hlen h
    · omega
    · exact h hcr)]
  rfl

theorem readFromCache_eq_none (hcr : cr ∉ cstr t.cached) : t.readFromCache count = none := by
  unfold Cache.readFromCache
  exact if_pos (.inr (.inr hcr))

theorem readLine_store (hcr : cr ∉ cstr t.cached) :
    t.readLine count (buf :: bufs) = (t.store buf).readLine count bufs := by
  rw [Cache.readLine, readFromCache_eq_none hcr]

/-- A cache that holds no line, at the end of what was delivered. -/
theorem readLine_nil : t.readLine count [] = none ↔ t.readFromCache count = none := by
  unfold Cache.readLine
  cases t.readFromCache count <;> simp

theorem readLines_one : t.readLines count 1 bufs = [] ↔ t.readLine count bufs = none := by
  unfold Cache.readLines
  cases t.readLine count bufs <;> simp [Cache.readLines]

theorem cstr_zeros (n : Nat) : cstr (List.replicate n 0) = [] := by
  cases n with
  | zero => rfl
  | succ n => exact cstr_append List.not_mem_nil _

/-- Writing what is there changes nothing. -/
theorem writeAt_same {a : Bytes} {i : Nat} {x : UInt8} (h : a[i]? = some x) :
    a.writeAt i [x] = a := by
  have hin : i + [x].length ≤ a.length := (List.getElem?_eq_some_iff.mp h).1
  refine List.ext_getElem? fun j => ?_
  rw [Bytes.getElem?_writeAt hin]
  split
  · rfl
  · split
    next hge hlt =>
      obtain rfl : j = i := by
        rw [List.length_singleton] at hlt
        omega
      rw [h, Nat.sub_self]
      rfl
    · rfl

/-- Nulls move the length and nothing else. -/
theorem store_zeros (h : t.Sound) (hfit : t.len + n < cachedSize) :
    t.store (List.replicate n 0) = ⟨t.cached, t.len + n⟩ := by
  have hlt : (cstr t.cached).length < t.cached.length := by
    rw [h.size]
    exact h.text_lt
  unfold Cache.store strncat
  rw [List.length_replicate, if_neg (by omega), cstr_zeros, List.take_nil, List.nil_append,
    writeAt_same (getElem?_cstr_length hlt)]

/-- The reader's buffer in the deliveries below. -/
def wide : Nat := 2 * cachedSize

/-- A line, or none, after nulls that have moved the length and one more piece. -/
theorem readLines_zeros {zeros : Bytes} (hcr : cr ∉ cstr t.cached)
    (hstore : t.store zeros = ⟨t.cached, n⟩) :
    t.readLines count 1 [zeros, buf] = [] ↔
      ((⟨t.cached, n⟩ : Cache).store buf).readFromCache count = none := by
  have hcr' : cr ∉ cstr (⟨t.cached, n⟩ : Cache).cached := hcr
  rw [readLines_one, readLine_store hcr, hstore, readLine_store hcr', readLine_nil]

/-- Where there is room for two bytes or has been nothing else, `"b\r"` is a line. -/
theorem short_store (hn : n < cachedSize - 1) :
    cr ∉ cstr ((⟨Cache.init.cached, n⟩ : Cache).store [98]).cached ∧
      cr ∈ cstr ((⟨Cache.init.cached, n⟩ : Cache).store [98, cr]).cached ∧
      ((⟨Cache.init.cached, n⟩ : Cache).store [98, cr]).len ≠ 0 := by
  have hempty : cstr Cache.init.cached = [] := cstr_zeros _
  have hcat : ∀ buf : Bytes, buf.length ≤ 2 → (0 : UInt8) ∉ buf → n + buf.length < cachedSize →
      cstr ((⟨Cache.init.cached, n⟩ : Cache).store buf).cached = buf := by
    intro buf hlen hfree hfit
    unfold Cache.store
    rw [if_neg (Nat.not_le.mpr hfit)]
    have hroom : (cstr buf).length ≤ cachedSize - (cstr Cache.init.cached).length - 1 := by
      rw [cstr_eq_self hfree, hempty]
      exact Nat.le_trans hlen (by decide)
    have hin : (cstr Cache.init.cached).length + (cstr buf).length < Cache.init.cached.length := by
      rw [cstr_eq_self hfree, hempty]
      exact Nat.lt_of_le_of_lt (Nat.add_le_add_left hlen _) (by decide +kernel)
    rw [(cstr_strncat hroom hin).1, hempty, cstr_eq_self hfree]
    rfl
  refine ⟨?_, ?_, ?_⟩
  · rw [hcat [98] (by decide) (by decide) (by simp; omega)]
    decide
  · by_cases hfit : n + 2 < cachedSize
    · rw [hcat [98, cr] (by decide) (by decide) hfit]
      decide
    · obtain rfl : n = cachedSize - 2 := by omega
      decide +kernel
  · unfold Cache.store
    split
    · exact (by decide : cachedSize - 1 ≠ 0)
    · exact Nat.succ_ne_zero _

/-- A cache with a length gives itself away: when it is full but for one byte, `"b\r"` loses
its line end there, and not in a cache that has been empty. -/
theorem Cache.Alike.len_eq (h : t.Sound) (halike : t.Alike Cache.init) : t.len = 0 := by
  by_contra hlen
  have hlt := h.len
  have hinit : Cache.init.Sound := init_valid.cache
  have hempty : cr ∉ cstr Cache.init.cached := by decide +kernel
  have hcr : cr ∉ cstr t.cached := by
    intro hcr
    have heq := halike wide 1 [] (by decide) nofun
    rw [readLines_one.mpr (readLine_nil.mpr (readFromCache_eq_none hempty))] at heq
    have hsome := readFromCache_isSome hlen hcr (by decide : 3 ≤ wide)
    rw [readLine_nil.mp (readLines_one.mp heq)] at hsome
    exact Bool.noConfusion hsome
  let zeros : Bytes := List.replicate (cachedSize - 1 - t.len) 0
  have hzeros : zeros.length ≤ wide := by
    rw [List.length_replicate]
    unfold wide
    omega
  have ht : t.store zeros = ⟨t.cached, cachedSize - 1⟩ := by
    rw [store_zeros h (by omega)]
    congr 1
    omega
  have hu : Cache.init.store zeros = ⟨Cache.init.cached, cachedSize - 1 - t.len⟩ := by
    have hfit : Cache.init.len + (cachedSize - 1 - t.len) < cachedSize := by
      change 0 + (cachedSize - 1 - t.len) < cachedSize
      omega
    rw [store_zeros hinit hfit]
    congr 1
    exact Nat.zero_add _
  let full : Cache := (⟨t.cached, cachedSize - 1⟩ : Cache).store [98]
  have hfull : (⟨t.cached, cachedSize - 1⟩ : Cache).store [98, cr] = full := rfl
  let short : Cache := ⟨Cache.init.cached, cachedSize - 1 - t.len⟩
  obtain ⟨hshort, hline, hlen'⟩ := short_store (n := cachedSize - 1 - t.len) (by omega)
  by_cases hsees : cr ∈ cstr full.cached
  · have hone : ∀ buf ∈ [zeros, [98]], buf.length ≤ wide := by
      simpa [hzeros] using (by decide : 1 ≤ wide)
    have hnone : Cache.init.readLines wide 1 [zeros, [98]] = [] := by
      rw [readLines_zeros hempty hu]
      exact readFromCache_eq_none hshort
    rw [← halike wide 1 _ (by decide) hone, readLines_zeros hcr ht] at hnone
    have hfulllen : full.len ≠ 0 := (by decide : cachedSize - 1 ≠ 0)
    have hsome := readFromCache_isSome hfulllen hsees (by decide : 3 ≤ wide)
    rw [hnone] at hsome
    exact Bool.noConfusion hsome
  · have htwo : ∀ buf ∈ [zeros, [98, cr]], buf.length ≤ wide := by
      simpa [hzeros] using (by decide : 2 ≤ wide)
    have hnone : t.readLines wide 1 [zeros, [98, cr]] = [] := by
      rw [readLines_zeros hcr ht, hfull]
      exact readFromCache_eq_none hsees
    rw [halike wide 1 _ (by decide) htwo, readLines_zeros hempty hu] at hnone
    have hsome := readFromCache_isSome hlen' hline (by decide : 3 ≤ wide)
    rw [hnone] at hsome
    exact Bool.noConfusion hsome

/-- The text of the second session, whose first line ends at once. -/
def probe (k : Nat) : Bytes := cr :: List.replicate (k - 1) 98

/-- With its length moved to the end by nulls, an empty cache takes `k` more bytes for an
overflow, and writes them in front of what stands behind its null. -/
theorem store_probe {k : Nat} (h : t.Sound) (hk : 0 < k) (hk' : k < cachedSize) :
    ((⟨t.cached, cachedSize - k⟩ : Cache).store (probe k)) =
      ⟨probe k ++ t.cached.drop k, cachedSize - 1⟩ := by
  have hlength : (probe k).length = k := by
    rw [probe, List.length_cons, List.length_replicate]
    omega
  have hfree : (0 : UInt8) ∉ probe k := by
    intro hmem
    rcases List.mem_cons.mp hmem with h | h
    · exact absurd h (by decide)
    · exact absurd (List.eq_of_mem_replicate h) (by decide)
  have hsize : (probe k ++ t.cached.drop k).length = cachedSize := by
    rw [List.length_append, hlength, List.length_drop, h.size]
    omega
  have hcopied : strncpy t.cached (probe k) k = probe k ++ t.cached.drop k := by
    unfold strncpy
    rw [cstr_eq_self hfree, List.take_of_length_le (Nat.le_of_eq hlength), hlength, Nat.sub_self,
      List.replicate_zero, List.append_nil,
      Bytes.writeAt_eq (by rw [hlength, h.size]; omega), hlength, Nat.zero_add]
    rfl
  have hlast : (probe k ++ t.cached.drop k)[cachedSize - 1]? = some 0 := by
    rw [List.getElem?_append_right (by rw [hlength]; omega), hlength, List.getElem?_drop, ← h.last]
    congr 1
    omega
  have hcr : cr ∈ cstr (probe k ++ t.cached.drop k) := by
    unfold cstr probe
    rw [List.cons_append, List.takeWhile_cons_of_pos (by decide)]
    exact List.mem_cons_self
  unfold Cache.store
  dsimp only
  rw [if_pos (by rw [hlength]; omega), Nat.sub_sub_self (Nat.le_of_lt hk'), hcopied,
    writeAt_same hlast, if_pos hcr]

theorem cstr_append_free {d : Bytes} (hd : (0 : UInt8) ∉ d) (rest : Bytes) :
    cstr (d ++ rest) = d ++ cstr rest :=
  List.takeWhile_append_of_pos (List.takeWhile_eq_self_iff.mp (Framing.takeWhile_free hd))

/-- The probe's first call returns the empty line, and what was uncovered follows. -/
theorem readLines_probe {k : Nat} (h : t.Sound) (hlen : t.len = 0) (hk : 0 < k)
    (hk' : k < cachedSize) :
    ∃ t' : Cache, t'.Holds (List.replicate (k - 1) 98 ++ cstr (t.cached.drop k)) ∧
      ∀ bufs calls, t.readLines wide (calls + 1) (List.replicate (cachedSize - k) 0 :: probe k :: bufs)
        = [cr] :: t'.readLines wide calls bufs := by
  have hempty : cstr t.cached = [] := by
    have htext := h.text
    rw [hlen] at htext
    exact List.eq_nil_of_length_eq_zero (Nat.le_zero.mp htext)
  have hcr : cr ∉ cstr t.cached := by
    rw [hempty]
    exact List.not_mem_nil
  have hzeros : t.store (List.replicate (cachedSize - k) 0) = ⟨t.cached, cachedSize - k⟩ := by
    rw [store_zeros h (by omega), hlen, Nat.zero_add]
  have hfree : (0 : UInt8) ∉ List.replicate (k - 1) (98 : UInt8) := by
    intro hmem
    exact absurd (List.eq_of_mem_replicate hmem) (by decide)
  let full : Cache := ⟨probe k ++ t.cached.drop k, cachedSize - 1⟩
  have hsize : full.cached.length = cachedSize := by
    change (probe k ++ t.cached.drop k).length = cachedSize
    rw [List.length_append, probe, List.length_cons, List.length_replicate, List.length_drop, h.size]
    omega
  have htext : cstr full.cached = [] ++ cr :: (List.replicate (k - 1) 98 ++ cstr (t.cached.drop k)) := by
    change cstr ([cr] ++ (List.replicate (k - 1) 98 ++ t.cached.drop k)) = _
    rw [cstr_append_free (by decide), cstr_append_free hfree]
    rfl
  obtain ⟨t', hread, ht'⟩ := Cache.readFromCache_line hsize htext (by decide : cachedSize - 1 ≠ 0)
    List.not_mem_nil (by decide : 3 ≤ wide) (Nat.zero_le _)
  refine ⟨t', ht', fun bufs calls => ?_⟩
  have hcr' : cr ∉ cstr (⟨t.cached, cachedSize - k⟩ : Cache).cached := hcr
  have hcall : t.readLine wide (List.replicate (cachedSize - k) 0 :: probe k :: bufs) =
      some ([cr], bufs, t') := by
    rw [readLine_store hcr, hzeros, readLine_store hcr', store_probe h hk hk']
    exact Cache.readLine_cached hread bufs
  rw [Cache.readLines, hcall]

/-- A line end that comes later gives the line. -/
theorem readLines_cr {held : Bytes} (ht : t.Holds held) (hcr : cr ∉ held)
    (hfit : held.length + 1 < cachedSize) : t.readLines wide 1 [[cr]] = [held ++ [cr]] := by
  have hstore := ht.store (by decide : (0 : UInt8) ∉ [cr]) hfit
  have hwide : held.length ≤ wide - 2 := Nat.le_trans (by omega) (by decide : cachedSize ≤ wide - 2)
  obtain ⟨t', hread, -⟩ := hstore.readFromCache_line hcr (by decide) hwide
  have hcr' : cr ∉ cstr t.cached := ht.text.symm ▸ hcr
  rw [Cache.readLines, readLine_store hcr', Cache.readLine_cached hread]
  rfl

/-- What stands behind the end of an empty string gives itself away in an overflow. -/
theorem Cache.Alike.cached_eq (h : t.Sound) (hlen : t.len = 0) (halike : t.Alike Cache.init) :
    t.cached = Cache.init.cached := by
  have hinit : Cache.init.Sound := init_valid.cache
  refine List.eq_replicate_iff.mpr ⟨h.size, fun x hx => ?_⟩
  by_contra hx0
  obtain ⟨k, hin, hxk⟩ := List.mem_iff_getElem.mp hx
  rw [h.size] at hin
  have hget : t.cached[k]? = some x := List.getElem?_eq_some_iff.mpr ⟨_, hxk⟩
  -- it is not the first byte, as the string is empty
  have hk : 0 < k := by
    rcases Nat.eq_zero_or_pos k with rfl | hk
    · have htext := h.text
      rw [hlen] at htext
      have hfirst := getElem?_cstr_length (a := t.cached) (by rw [h.size]; exact h.text_lt)
      rw [Nat.le_zero.mp htext, hget] at hfirst
      exact absurd (Option.some.inj hfirst) hx0
    · exact hk
  have hbehind : cstr (t.cached.drop k) ≠ [] := by
    have hdrop : (t.cached.drop k).head? = some x := by
      rw [List.head?_drop, hget]
    obtain ⟨rest, hrest⟩ := List.head?_eq_some_iff.mp hdrop
    rw [hrest, cstr, List.takeWhile_cons_of_pos (by simpa using hx0)]
    exact List.cons_ne_nil _ _
  have hshort : (cstr (t.cached.drop k)).length ≤ cachedSize - 1 - k := by
    refine cstr_length_le ?_
    rw [List.getElem?_drop, ← h.last]
    congr 1
    omega
  obtain ⟨t', ht', hlines⟩ := readLines_probe h hlen hk hin
  obtain ⟨u', hu', hlines'⟩ := readLines_probe hinit rfl hk hin
  have hnothing : cstr (Cache.init.cached.drop k) = [] := by
    change cstr ((List.replicate cachedSize 0).drop k) = []
    rw [List.drop_replicate, cstr_zeros]
  rw [hnothing, List.append_nil] at hu'
  have hsame : ∀ bufs calls, (∀ buf ∈ bufs, buf.length ≤ wide) →
      t'.readLines wide calls bufs = u'.readLines wide calls bufs := by
    intro bufs calls hbufs
    have heq := halike wide (calls + 1) (List.replicate (cachedSize - k) 0 :: probe k :: bufs)
      (by decide) ?_
    · rw [hlines, hlines'] at heq
      exact (List.cons.inj heq).2
    · have hzeros : (List.replicate (cachedSize - k) (0 : UInt8)).length ≤ wide := by
        rw [List.length_replicate]
        unfold wide
        omega
      have hprobe : (probe k).length ≤ wide := by
        rw [probe, List.length_cons, List.length_replicate]
        unfold wide
        omega
      exact List.forall_mem_cons.mpr ⟨hzeros, List.forall_mem_cons.mpr ⟨hprobe, hbufs⟩⟩
  have hplain : cr ∉ List.replicate (k - 1) (98 : UInt8) := by
    intro hmem
    exact absurd (List.eq_of_mem_replicate hmem) (by decide)
  by_cases hcr : cr ∈ cstr (t.cached.drop k)
  · have hnone := readLines_one.mpr (readLine_nil.mpr (hu'.readFromCache_none hplain wide))
    rw [← hsame [] 1 nofun, readLines_one, readLine_nil] at hnone
    have hlen' : t'.len ≠ 0 := by
      rw [ht'.len, List.length_append]
      have hpos := List.length_pos_iff.mpr hbehind
      omega
    have hmem : cr ∈ cstr t'.cached := by
      rw [ht'.text]
      exact List.mem_append_right _ hcr
    have hsome := readFromCache_isSome hlen' hmem (by decide : 3 ≤ wide)
    rw [hnone] at hsome
    exact Bool.noConfusion hsome
  · have hheld : cr ∉ List.replicate (k - 1) 98 ++ cstr (t.cached.drop k) := by
      rw [List.mem_append]
      exact not_or.mpr ⟨hplain, hcr⟩
    have heq := hsame [[cr]] 1 (by simp [wide, cachedSize])
    rw [readLines_cr ht' hheld, readLines_cr hu' hplain] at heq
    · have hsame' := List.append_cancel_right (List.cons.inj heq).1
      exact hbehind (List.append_right_eq_self.mp hsame')
    · rw [List.length_replicate]
      omega
    · rw [List.length_append, List.length_replicate]
      omega

/-- A sound cache that gives what an empty one gives is empty. -/
theorem Cache.Alike.eq_init (h : t.Sound) (halike : t.Alike Cache.init) : t = Cache.init := by
  have hlen := halike.len_eq h
  have hcached := halike.cached_eq h hlen
  cases t
  exact congr (congrArg Cache.mk hcached) hlen

end Probe

/-! ## Isolation -/

theorem History.lines_first (fd count calls : Nat) (bufs : List Bytes) (hcount : 3 ≤ count) :
    (History.first fd).lines count calls bufs = Cache.init.readLines count calls bufs :=
  (History.first fd).lines_eq hcount calls bufs

/-- A buffer that is too small gets no line. -/
theorem History.lines_small (h : History) {count : Nat} (hcount : count < 3) (calls : Nat)
    (bufs : List Bytes) : h.lines count calls bufs = [] := by
  unfold lines
  cases calls with
  | zero => rfl
  | succ calls =>
    unfold ttyReadLines
    cases bufs <;> simp [ttyReadLine, hcount]

/-- A history can be told from none, unless it leaves nothing behind. -/
theorem History.clean_iff (h : History) :
    (∀ count calls bufs, (∀ buf ∈ bufs, buf.length ≤ count) →
      h.lines count calls bufs = (History.first h.fd).lines count calls bufs) ↔ h.Clean := by
  constructor
  · intro hown
    refine Cache.Alike.eq_init h.valid.cache fun count calls bufs hcount hbufs => ?_
    rw [← h.lines_eq hcount, hown count calls bufs hbufs, History.lines_first _ _ _ _ hcount]
  · intro hclean count calls bufs _
    by_cases hcount : 3 ≤ count
    · rw [h.lines_eq hcount, hclean, History.lines_first _ _ _ _ hcount]
    · rw [h.lines_small (by omega), (History.first h.fd).lines_small (by omega)]

/-- For every two histories: what follows is kept apart from them exactly when each has
left the cache as it was at the start. -/
theorem sessionsIsolated_iff (h₁ h₂ : History) : Isolated h₁ h₂ ↔ h₁.Clean ∧ h₂.Clean := by
  rw [← h₁.clean_iff, ← h₂.clean_iff]
  constructor
  · intro h
    exact ⟨h.own h₁ (by simp), h.own h₂ (by simp)⟩
  · rintro ⟨hown₁, hown₂⟩
    refine ⟨fun count calls bufs hbufs => ?_, fun h hmem => ?_⟩
    · rw [hown₁ count calls bufs hbufs, hown₂ count calls bufs hbufs]
      by_cases hcount : 3 ≤ count
      · rw [History.lines_first _ _ _ _ hcount, History.lines_first _ _ _ _ hcount]
      · rw [(History.first h₁.fd).lines_small (by omega), (History.first h₂.fd).lines_small (by omega)]
    · rcases List.mem_pair.mp hmem with rfl | rfl
      · exact hown₁
      · exact hown₂

/-- A session that ends in the middle of a line. -/
def unfinished : History where
  ops := [.opens 3, .readLine 3 16 [some [97, 98]], .close 3 true]
  fd := 3
  unused := by decide +kernel

/-- The next session's line begins with its bytes. -/
theorem sessionsIsolated_fails_unfinished : ¬ Isolated unfinished (History.first 3) := by
  intro h
  have heq := h.same 16 1 [[99, cr]] (by decide)
  exact absurd heq (by decide +kernel)

end AndroidLearn.Ttytool
