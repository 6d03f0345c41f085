import AndroidLearn.Ttytool.Sessions

/-!
# What one call does to its buffer

`tty_read_line` of `ttytool.c` gives `read` all of `buf` and then puts a null behind what
was delivered, so that a full read writes behind the buffer. What is delivered goes to the
cache as a string, up to its first null; where the cache has no room for it, the string in
the cache is written over from its front. At the end of file `read` delivers nothing, and
where lines are looked for the loop goes on.

A run is any list of operations on the tty, as `Sessions` has them; every call in it is
looked at. The buffer of a call is its length, and a byte that was read may be any byte, a
null as well.

`Respects` is what a call should do: no write behind the buffer, and no byte that was
delivered is lost. A byte that was lost is missing in the length of what is kept: a string
in the cache has less than 4096 bytes and no null. The invariant of a run is `Level`, that
the length kept beside the cache is that of its string.

Theorem: `eachCall_iff` says for which runs every call does it.
-/

namespace AndroidLearn.Ttytool

/-! ## What a call writes -/

/-- What `tty_read_from_cache` takes out of the cache: the `'\r'` too, unless the line is cut. -/
def Cache.copied (t : Cache) (count : Nat) : Bytes :=
  let s := cstr t.cached
  let bytesRead := min (s.takeWhile (· ≠ cr)).length (count - 2)
  if (s.drop bytesRead).head? = some cr then s.take (bytesRead + 1) else s.take bytesRead

/-- What a call has done to memory. -/
structure Trace where
  /-- the indices at which `buf` is written -/
  writes : List Nat
  /-- what `read` has delivered for the cache -/
  stored : Bytes
  /-- what of the cache is in the line -/
  copied : Bytes

/-- `tty_read_line`, as `ttyReadLine` has it: what it does on its way. -/
def trace (fd count : Nat) : List (Option Bytes) → Tty → Trace
  | reads, t =>
    if count < 3 then ⟨[], [], []⟩
    else
      match t.cache.readFromCache count with
      | some (line, _) => ⟨List.range (line.length + 1), [], t.cache.copied count⟩
      | none =>
        match reads with
        | [] => ⟨[], [], []⟩
        | none :: _ => ⟨[], [], []⟩
        | some buf :: reads =>
          let (p, t) := t.ttydbGet fd
          -- the last one is `buf [bytesRead] = 0`
          let writes := List.range (buf.length + 1)
          if p.ttyState = .canonical then ⟨writes, [], []⟩
          else
            let rest := trace fd count reads { t with cache := t.cache.store buf }
            ⟨writes ++ rest.writes, buf ++ rest.stored, rest.copied⟩

/-- What a call should do; `reads` is what `read` returns before the end of file. -/
structure Respects (t : Tty) (fd count : Nat) (reads : List (Option Bytes)) : Prop where
  within : ∀ i ∈ (trace fd count reads t).writes, i < count
  /-- what was in the cache or was read for it is in the line, or still in the cache -/
  kept : cstr t.cache.cached ++ (trace fd count reads t).stored =
    (trace fd count reads t).copied ++ cstr (ttyReadLine fd count reads t).2.2.cache.cached
  returned : (trace fd count reads t).copied = [] ∨
    ∃ line, (ttyReadLine fd count reads t).1 = .line line ∧ (trace fd count reads t).copied <+: line
  ends : ∃ n, (ttyReadLine fd count (reads ++ List.replicate n (some [])) t).1 ≠ .waiting

/-! ## When it does -/

/-- What is delivered up to a `'\r'`, or in front of an error, has no null and leaves room for
one in `buf` and in the cache. -/
def Delivered (held : Bytes) (count : Nat) (reads : List (Option Bytes)) : Prop :=
  ∃ (bufs : List Bytes) (rest : List (Option Bytes)), reads = bufs.map some ++ rest ∧
    (cr ∈ held ++ bufs.flatten ∨ rest.head? = some none) ∧
    (∀ buf ∈ bufs, buf.length < count ∧ (0 : UInt8) ∉ buf) ∧
    held.length + bufs.flatten.length < cachedSize

/-- `p->tty_state == CANONICAL` -/
def Tty.Canonical (t : Tty) (fd : Nat) : Prop := (t.ttydbGet fd).1.ttyState = .canonical

instance (t : Tty) (fd : Nat) : Decidable (t.Canonical fd) :=
  inferInstanceAs (Decidable (_ = _))

/-- The buffer is too small to be used, or what is read fits: in the canonical state one piece
alone, which is returned as it is. -/
def Fits (t : Tty) (fd count : Nat) (reads : List (Option Bytes)) : Prop :=
  count < 3 ∨
    if t.Canonical fd then
      cr ∈ cstr t.cache.cached ∨ ∀ buf, reads.head? = some (some buf) → buf.length < count
    else Delivered (cstr t.cache.cached) count reads

/-! ## A line of the cache -/

section Cached

variable {t : Cache} {count : Nat}

/-- A line in the cache fits `buf`, and with what is still cached it is what was. -/
theorem Cache.Sound.cachedLine (h : t.Sound) (hcr : cr ∈ cstr t.cached) (hcount : 3 ≤ count) :
    ∃ line t', t.readFromCache count = some (line, t') ∧ line.length < count ∧
      t.copied count <+: line ∧ cstr t.cached = t.copied count ++ cstr t'.cached ∧
      t'.Holds (cstr t'.cached) := by
  have hlen : t.len ≠ 0 := by
    have hpos := List.length_pos_of_mem hcr
    have htext := h.text
    omega
  have hsome : ¬ (t.len = 0 ∨ count < 3 ∨ cr ∉ cstr t.cached) := by
    rintro (hzero | hsmall | hfree)
    · exact hlen hzero
    · omega
    · exact hfree hcr
  unfold Cache.readFromCache Cache.copied
  dsimp only
  rw [if_neg hsome]
  generalize hs : cstr t.cached = s
  generalize hb : min (s.takeWhile (· ≠ cr)).length (count - 2) = b
  have hbound : b ≤ count - 2 := hb ▸ Nat.min_le_right _ _
  have hline : (s.take b ++ [cr]).length < count := by
    rw [List.length_append, List.length_take, List.length_singleton]
    omega
  have hfree : (0 : UInt8) ∉ s := hs ▸ cstr_free t.cached
  have hlt : s.length < cachedSize := hs ▸ h.text_lt
  -- what is moved to the front
  have hmoved (ptr : Bytes) (hsuffix : ptr <:+ s) : cstr (t.cached.writeAt 0 (ptr ++ [0])) = ptr ∧
      (⟨t.cached.writeAt 0 (ptr ++ [0]), (cstr (t.cached.writeAt 0 (ptr ++ [0]))).length⟩ :
        Cache).Holds (cstr (t.cached.writeAt 0 (ptr ++ [0]))) := by
    have hle := hsuffix.length_le
    have hfit : ptr.length < t.cached.length := by
      rw [h.size]
      omega
    refine ⟨cstr_writeAt_zero (fun hmem => hfree (hsuffix.subset hmem)) hfit, ?_, rfl, rfl⟩
    refine (Bytes.length_writeAt ?_).trans h.size
    rw [List.length_append, List.length_singleton]
    omega
  split
  next hhead =>
    obtain ⟨rest, hrest⟩ := List.head?_eq_some_iff.mp hhead
    have htake : s.take (b + 1) = s.take b ++ [cr] := by
      rw [List.take_add, hrest]
      rfl
    obtain ⟨hcstr, hholds⟩ := hmoved (s.drop b).tail
      ((List.tail_suffix _).trans (List.drop_suffix _ _))
    refine ⟨_, _, rfl, hline, ?_, ?_, hholds⟩
    · exact ⟨[], by rw [htake, List.append_nil]⟩
    · rw [hcstr, List.tail_drop, List.take_append_drop]
  next hhead =>
    obtain ⟨hcstr, hholds⟩ := hmoved (s.drop b) (List.drop_suffix _ _)
    refine ⟨_, _, rfl, hline, List.prefix_append _ _, ?_, hholds⟩
    rw [hcstr, List.take_append_drop]

end Cached

/-! ## One call, case by case -/

/-- One `read` is stored: what the next round of the loop begins with. -/
def Tty.stored (t : Tty) (fd : Nat) (buf : Bytes) : Tty :=
  { (t.ttydbGet fd).2 with cache := t.cache.store buf }

section Call

variable {t : Tty} {fd count : Nat} {reads : List (Option Bytes)} {line buf : Bytes} {c : Cache}

/-- Storing leaves the state of a terminal. -/
theorem canonical_stored (t : Tty) (fd : Nat) (buf : Bytes) :
    (t.stored fd buf).Canonical fd ↔ t.Canonical fd := by
  have hget : ((t.stored fd buf).ttydbGet fd).1 = (t.ttydbGet fd).1 := by
    unfold Tty.stored Tty.ttydbGet
    cases hp : t.find fd with
    | some p =>
      have hfind : Tty.find { t with cache := t.cache.store buf } fd = some p := hp
      dsimp only
      rw [hfind]
    | none =>
      have hfind : Tty.find { t.ttydbAdd fd with cache := t.cache.store buf } fd =
          some ⟨fd, .reset⟩ := by simp [Tty.find, Tty.ttydbAdd]
      dsimp only
      rw [hfind]
  unfold Tty.Canonical
  rw [hget]

/-- A buffer that is too small. -/
theorem call_small (t : Tty) (fd : Nat) (reads : List (Option Bytes)) (h : count < 3) :
    ttyReadLine fd count reads t = (.error, reads, t) ∧
    trace fd count reads t = ⟨[], [], []⟩ := by
  unfold ttyReadLine trace
  rw [if_pos h, if_pos h]
  exact ⟨rfl, rfl⟩

/-- A line from the cache. -/
theorem call_cached (fd : Nat) (reads : List (Option Bytes)) (hcount : 3 ≤ count) (hread : t.cache.readFromCache count = some (line, c)) :
    ttyReadLine fd count reads t = (.line line, reads, { t with cache := c }) ∧
      trace fd count reads t = ⟨List.range (line.length + 1), [], t.cache.copied count⟩ := by
  unfold ttyReadLine trace
  rw [if_neg (Nat.not_lt.mpr hcount), if_neg (Nat.not_lt.mpr hcount), hread]
  exact ⟨rfl, rfl⟩

/-- There is nothing to read. -/
theorem call_nil (fd : Nat) (hcount : 3 ≤ count) (hread : t.cache.readFromCache count = none) :
    ttyReadLine fd count [] t = (.waiting, [], t) ∧ trace fd count [] t = ⟨[], [], []⟩ := by
  unfold ttyReadLine trace
  rw [if_neg (Nat.not_lt.mpr hcount), if_neg (Nat.not_lt.mpr hcount), hread]
  exact ⟨rfl, rfl⟩

/-- The read fails. -/
theorem call_error (fd : Nat) (reads : List (Option Bytes)) (hcount : 3 ≤ count) (hread : t.cache.readFromCache count = none) :
    ttyReadLine fd count (none :: reads) t = (.error, reads, t) ∧
      trace fd count (none :: reads) t = ⟨[], [], []⟩ := by
  unfold ttyReadLine trace
  rw [if_neg (Nat.not_lt.mpr hcount), if_neg (Nat.not_lt.mpr hcount), hread]
  exact ⟨rfl, rfl⟩

/-- A terminal that gives lines by itself. -/
theorem call_canonical (reads : List (Option Bytes)) (buf : Bytes) (hcount : 3 ≤ count) (hread : t.cache.readFromCache count = none)
    (hcan : t.Canonical fd) :
    ttyReadLine fd count (some buf :: reads) t = (.line buf, reads, (t.ttydbGet fd).2) ∧
      trace fd count (some buf :: reads) t = ⟨List.range (buf.length + 1), [], []⟩ := by
  have hstate : (t.ttydbGet fd).1.ttyState = .canonical := hcan
  unfold ttyReadLine trace
  rw [if_neg (Nat.not_lt.mpr hcount), if_neg (Nat.not_lt.mpr hcount), hread]
  dsimp only
  rw [if_pos hstate, if_pos hstate]
  exact ⟨rfl, rfl⟩

/-- What was read goes into the cache, and the call goes on. -/
theorem call_stored (reads : List (Option Bytes)) (buf : Bytes) (hcount : 3 ≤ count) (hread : t.cache.readFromCache count = none)
    (hcan : ¬ t.Canonical fd) :
    ttyReadLine fd count (some buf :: reads) t = ttyReadLine fd count reads (t.stored fd buf) ∧
      trace fd count (some buf :: reads) t =
        ⟨List.range (buf.length + 1) ++ (trace fd count reads (t.stored fd buf)).writes,
          buf ++ (trace fd count reads (t.stored fd buf)).stored,
          (trace fd count reads (t.stored fd buf)).copied⟩ := by
  have hstate : ¬ (t.ttydbGet fd).1.ttyState = .canonical := hcan
  unfold Tty.stored
  rw [ttyReadLine, trace, if_neg (Nat.not_lt.mpr hcount), if_neg (Nat.not_lt.mpr hcount), hread]
  dsimp only
  rw [if_neg hstate, if_neg hstate, t.ttydbGet_cache fd]
  exact ⟨rfl, rfl⟩

/-- What a call leaves of the cache, behind what it has copied, was a string of the cache. -/
theorem call_sound (fd count : Nat) (reads : List (Option Bytes)) (h : t.cache.Sound) : ∃ c : Cache, c.Sound ∧
    cstr c.cached =
      (trace fd count reads t).copied ++ cstr (ttyReadLine fd count reads t).2.2.cache.cached := by
  by_cases hsmall : count < 3
  · obtain ⟨hcall, htrace⟩ := call_small t fd reads hsmall
    rw [hcall, htrace]
    exact ⟨t.cache, h, rfl⟩
  have hcount : 3 ≤ count := Nat.not_lt.mp hsmall
  induction reads generalizing t with
  | nil =>
    by_cases hcr : cr ∈ cstr t.cache.cached
    · obtain ⟨line, c, hread, -, -, hcstr, -⟩ := h.cachedLine hcr hcount
      obtain ⟨hcall, htrace⟩ := call_cached fd [] hcount hread
      rw [hcall, htrace]
      exact ⟨t.cache, h, hcstr⟩
    · obtain ⟨hcall, htrace⟩ := call_nil fd hcount (readFromCache_eq_none hcr)
      rw [hcall, htrace]
      exact ⟨t.cache, h, rfl⟩
  | cons r reads ih =>
    by_cases hcr : cr ∈ cstr t.cache.cached
    · obtain ⟨line, c, hread, -, -, hcstr, -⟩ := h.cachedLine hcr hcount
      obtain ⟨hcall, htrace⟩ := call_cached fd (r :: reads) hcount hread
      rw [hcall, htrace]
      exact ⟨t.cache, h, hcstr⟩
    have hread : t.cache.readFromCache count = none := readFromCache_eq_none hcr
    cases r with
    | none =>
      obtain ⟨hcall, htrace⟩ := call_error fd reads hcount hread
      rw [hcall, htrace]
      exact ⟨t.cache, h, rfl⟩
    | some buf =>
      by_cases hcan : t.Canonical fd
      · obtain ⟨hcall, htrace⟩ := call_canonical reads buf hcount hread hcan
        rw [hcall, htrace]
        exact ⟨(t.ttydbGet fd).2.cache, (t.ttydbGet_cache fd).symm ▸ h, rfl⟩
      · obtain ⟨hcall, htrace⟩ := call_stored reads buf hcount hread hcan
        rw [hcall, htrace]
        exact ih (t := t.stored fd buf) (h.store buf)

end Call

/-! ## A call in a cache where nothing is lost -/

/-- `len` is the length of the string: no part of what was stored is missing. -/
structure Cache.Level (t : Cache) : Prop where
  sound : t.Sound
  level : t.len = (cstr t.cached).length

section Level

variable {t : Tty} {c : Cache} {fd count : Nat} {reads : List (Option Bytes)} {buf : Bytes}

theorem Cache.Level.holds (h : c.Level) : c.Holds (cstr c.cached) := ⟨h.sound.size, rfl, h.level⟩

/-- A piece that fits is appended. -/
theorem Cache.Level.store (h : c.Level) (hfree : (0 : UInt8) ∉ buf)
    (hfit : (cstr c.cached).length + buf.length < cachedSize) :
    (c.store buf).Level ∧ cstr (c.store buf).cached = cstr c.cached ++ buf := by
  have hholds := h.holds.store hfree hfit
  exact ⟨⟨h.sound.store buf, by rw [hholds.text]; exact hholds.len⟩, hholds.text⟩

/-- A call that leaves the cache alone. -/
theorem respects_uncopied {writes : List Nat} (htrace : trace fd count reads t = ⟨writes, [], []⟩)
    (hwrites : ∀ i ∈ writes, i < count)
    (hcache : (ttyReadLine fd count reads t).2.2.cache = t.cache)
    (hends : ∃ n, (ttyReadLine fd count (reads ++ List.replicate n (some [])) t).1 ≠ .waiting) :
    Respects t fd count reads := by
  refine ⟨?_, ?_, ?_, hends⟩
  · rw [htrace]
    exact hwrites
  · rw [htrace, hcache]
    exact List.append_nil _
  · rw [htrace]
    exact .inl rfl

/-- A buffer that is too small is respected. -/
theorem respects_small (hsmall : count < 3) : Respects t fd count reads := by
  obtain ⟨hcall, htrace⟩ := call_small t fd reads hsmall
  refine respects_uncopied htrace (fun i hi => absurd hi List.not_mem_nil) (by rw [hcall]) ⟨0, ?_⟩
  rw [(call_small t fd _ hsmall).1]
  exact nofun

/-- A line that is in the cache is returned within `buf`, and nothing is read. -/
theorem respects_cached (h : t.cache.Sound) (hcount : 3 ≤ count) (hcr : cr ∈ cstr t.cache.cached) :
    Respects t fd count reads ∧ (ttyReadLine fd count reads t).2.2.cache.Level := by
  obtain ⟨line, c, hread, hline, hprefix, hcstr, hholds⟩ := h.cachedLine hcr hcount
  obtain ⟨hcall, htrace⟩ := call_cached fd reads hcount hread
  have hlevel : c.Level := ⟨h.readFromCache hread, hholds.len⟩
  refine ⟨⟨?_, ?_, ?_, 0, ?_⟩, ?_⟩
  · rw [htrace]
    intro i hi
    have hlt := List.mem_range.mp hi
    omega
  · rw [htrace, hcall, List.append_nil]
    exact hcstr
  · rw [htrace, hcall]
    exact .inr ⟨line, rfl, hprefix⟩
  · rw [(call_cached fd _ hcount hread).1]
    exact nofun
  · rw [hcall]
    exact hlevel

theorem respects_error (hcount : 3 ≤ count) (hcr : cr ∉ cstr t.cache.cached) :
    Respects t fd count (none :: reads) := by
  have hread : t.cache.readFromCache count = none := readFromCache_eq_none hcr
  obtain ⟨hcall, htrace⟩ := call_error fd reads hcount hread
  refine respects_uncopied htrace (fun i hi => absurd hi List.not_mem_nil) (by rw [hcall]) ⟨0, ?_⟩
  rw [List.replicate_zero, List.append_nil, hcall]
  exact nofun

/-- The canonical state: the end of file is a line without bytes. -/
theorem respects_canonical_nil (hcount : 3 ≤ count) (hcr : cr ∉ cstr t.cache.cached)
    (hcan : t.Canonical fd) : Respects t fd count [] := by
  have hread : t.cache.readFromCache count = none := readFromCache_eq_none hcr
  obtain ⟨hcall, htrace⟩ := call_nil fd hcount hread
  refine respects_uncopied htrace (fun i hi => absurd hi List.not_mem_nil) (by rw [hcall]) ⟨1, ?_⟩
  rw [List.nil_append, List.replicate_one, (call_canonical _ _ hcount hread hcan).1]
  exact nofun

/-- The canonical state: one piece is returned, and the cache left alone. -/
theorem respects_canonical (hcount : 3 ≤ count) (hcr : cr ∉ cstr t.cache.cached)
    (hcan : t.Canonical fd) : Respects t fd count (some buf :: reads) ↔ buf.length < count := by
  have hread : t.cache.readFromCache count = none := readFromCache_eq_none hcr
  obtain ⟨hcall, htrace⟩ := call_canonical reads buf hcount hread hcan
  constructor
  · intro h
    refine h.within buf.length ?_
    rw [htrace]
    exact List.mem_range.mpr (Nat.lt_succ_self _)
  · intro hlt
    refine respects_uncopied htrace (fun i hi => ?_) ?_ ⟨0, ?_⟩
    · exact Nat.lt_of_le_of_lt (Nat.le_of_lt_succ (List.mem_range.mp hi)) hlt
    · rw [hcall, t.ttydbGet_cache fd]
    · rw [List.replicate_zero, List.append_nil, hcall]
      exact nofun

/-- One piece is stored, and what it is appended to is kept: the call goes on as one with the
longer string in its cache. -/
theorem respects_stored (hcount : 3 ≤ count) (hcr : cr ∉ cstr t.cache.cached)
    (hcan : ¬ t.Canonical fd)
    (hstore : cstr (t.cache.store buf).cached = cstr t.cache.cached ++ buf) :
    Respects t fd count (some buf :: reads) ↔
      buf.length < count ∧ Respects (t.stored fd buf) fd count reads := by
  have hread : t.cache.readFromCache count = none := readFromCache_eq_none hcr
  have hnext : cstr (t.stored fd buf).cache.cached = cstr t.cache.cached ++ buf := hstore
  obtain ⟨hcall, htrace⟩ := call_stored reads buf hcount hread hcan
  have hends (n : Nat) : ttyReadLine fd count (some buf :: reads ++ List.replicate n (some [])) t =
      ttyReadLine fd count (reads ++ List.replicate n (some [])) (t.stored fd buf) :=
    (call_stored _ _ hcount hread hcan).1
  constructor
  · rintro ⟨hwithin, hkept, hreturned, n, hn⟩
    rw [htrace] at hwithin hkept hreturned
    rw [hcall] at hkept hreturned
    refine ⟨hwithin _ (List.mem_append_left _ (List.mem_range.mpr (Nat.lt_succ_self _))),
      fun i hi => hwithin i (List.mem_append_right _ hi), ?_, hreturned, n, hends n ▸ hn⟩
    rw [hnext, List.append_assoc]
    exact hkept
  · rintro ⟨hlt, hwithin, hkept, hreturned, n, hn⟩
    rw [hnext, List.append_assoc] at hkept
    refine ⟨?_, ?_, ?_, n, (hends n).symm ▸ hn⟩
    · rw [htrace]
      intro i hi
      rcases List.mem_append.mp hi with hi | hi
      · exact Nat.lt_of_le_of_lt (Nat.le_of_lt_succ (List.mem_range.mp hi)) hlt
      · exact hwithin i hi
    · rw [htrace, hcall]
      exact hkept
    · rw [htrace, hcall]
      exact hreturned

/-- The end of file, where lines are looked for: nothing is stored, again and again. -/
theorem waits_replicate (h : t.cache.Level) (hcount : 3 ≤ count) (hcr : cr ∉ cstr t.cache.cached)
    (hcan : ¬ t.Canonical fd) (n : Nat) :
    (ttyReadLine fd count (List.replicate n (some [])) t).1 = .waiting := by
  induction n generalizing t with
  | zero => rw [List.replicate_zero, (call_nil fd hcount (readFromCache_eq_none hcr)).1]
  | succ n ih =>
    obtain ⟨hlevel, hcstr⟩ := h.store (List.not_mem_nil (a := 0)) h.sound.text_lt
    rw [List.append_nil] at hcstr
    rw [List.replicate_succ, (call_stored _ [] hcount (readFromCache_eq_none hcr) hcan).1]
    refine ih (t := t.stored fd []) hlevel ?_ fun hnext => hcan ((canonical_stored t fd []).mp hnext)
    show cr ∉ cstr (t.cache.store []).cached
    rwa [hcstr]

/-- Nothing is lost, and the call returns: then the pieces had room. -/
theorem delivered_of_respects (h : t.cache.Level) (hcount : 3 ≤ count) (hcan : ¬ t.Canonical fd)
    (hrespects : Respects t fd count reads) : Delivered (cstr t.cache.cached) count reads := by
  induction reads generalizing t with
  | nil =>
    by_cases hcr : cr ∈ cstr t.cache.cached
    · exact ⟨[], [], rfl, .inl (List.mem_append_left _ hcr), fun _ hmem => absurd hmem
        List.not_mem_nil, h.sound.text_lt⟩
    · obtain ⟨n, hn⟩ := hrespects.ends
      exact absurd (waits_replicate h hcount hcr hcan n) hn
  | cons r reads ih =>
    by_cases hcr : cr ∈ cstr t.cache.cached
    · exact ⟨[], r :: reads, rfl, .inl (List.mem_append_left _ hcr), fun _ hmem => absurd hmem
        List.not_mem_nil, h.sound.text_lt⟩
    cases r with
    | none =>
      exact ⟨[], none :: reads, rfl, .inr rfl, fun _ hmem => absurd hmem List.not_mem_nil,
        h.sound.text_lt⟩
    | some buf =>
      have hread : t.cache.readFromCache count = none := readFromCache_eq_none hcr
      -- what is kept is a string of the cache, and what was read is part of it
      obtain ⟨c, hsound, hcstr⟩ := call_sound fd count (some buf :: reads) h.sound
      rw [← hrespects.kept, (call_stored _ _ hcount hread hcan).2] at hcstr
      have hfree : (0 : UInt8) ∉ buf := fun hmem => cstr_free c.cached (by simp [hcstr, hmem])
      have hfit : (cstr t.cache.cached).length + buf.length < cachedSize := by
        have hlt := hsound.text_lt
        rw [hcstr, List.length_append, List.length_append] at hlt
        omega
      obtain ⟨hlevel, hstore⟩ := h.store hfree hfit
      obtain ⟨hlt, hnext⟩ := (respects_stored hcount hcr hcan hstore).mp hrespects
      obtain ⟨bufs, rest, rfl, hend, hbufs, hroom⟩ := ih (t := t.stored fd buf) hlevel
        (fun hnext => hcan ((canonical_stored t fd buf).mp hnext)) hnext
      have hheld : cstr (t.stored fd buf).cache.cached = cstr t.cache.cached ++ buf := hstore
      rw [hheld, List.append_assoc] at hend
      rw [hheld, List.length_append, Nat.add_assoc] at hroom
      refine ⟨buf :: bufs, rest, rfl, hend, List.forall_mem_cons.mpr ⟨⟨hlt, hfree⟩, hbufs⟩, ?_⟩
      rwa [List.flatten_cons, List.length_append]

/-- The pieces have room: each is appended, up to the one that ends a line. -/
theorem respects_of_delivered (h : t.cache.Level) (hcount : 3 ≤ count) (hcan : ¬ t.Canonical fd)
    (hdelivered : Delivered (cstr t.cache.cached) count reads) :
    Respects t fd count reads ∧ (ttyReadLine fd count reads t).2.2.cache.Level := by
  obtain ⟨bufs, rest, rfl, hend, hbufs, hroom⟩ := hdelivered
  induction bufs generalizing t with
  | nil =>
    by_cases hcr : cr ∈ cstr t.cache.cached
    · exact respects_cached h.sound hcount hcr
    · rw [List.flatten_nil, List.append_nil] at hend
      obtain ⟨reads, rfl⟩ := List.head?_eq_some_iff.mp (hend.resolve_left hcr)
      refine ⟨respects_error hcount hcr, ?_⟩
      have hread : t.cache.readFromCache count = none := readFromCache_eq_none hcr
      rw [List.map_nil, List.nil_append, (call_error fd _ hcount hread).1]
      exact h
  | cons buf bufs ih =>
    by_cases hcr : cr ∈ cstr t.cache.cached
    · exact respects_cached h.sound hcount hcr
    have hread : t.cache.readFromCache count = none := readFromCache_eq_none hcr
    obtain ⟨⟨hlt, hfree⟩, hbufs⟩ := List.forall_mem_cons.mp hbufs
    rw [List.flatten_cons, List.length_append] at hroom
    obtain ⟨hlevel, hstore⟩ := h.store hfree (by omega)
    have hheld : cstr (t.stored fd buf).cache.cached = cstr t.cache.cached ++ buf := hstore
    obtain ⟨hrespects, hlast⟩ := ih (t := t.stored fd buf) hlevel
      (fun hnext => hcan ((canonical_stored t fd buf).mp hnext))
      (by rwa [hheld, List.append_assoc]) hbufs (by rw [hheld, List.length_append]; omega)
    rw [List.map_cons, List.cons_append]
    refine ⟨(respects_stored hcount hcr hcan hstore).mpr ⟨hlt, hrespects⟩, ?_⟩
    rw [(call_stored _ _ hcount hread hcan).1]
    exact hlast

/-- When a call respects its buffer. -/
theorem respects_iff (h : t.cache.Level) : Respects t fd count reads ↔ Fits t fd count reads := by
  by_cases hsmall : count < 3
  · exact iff_of_true (respects_small hsmall) (.inl hsmall)
  have hcount : 3 ≤ count := Nat.not_lt.mp hsmall
  unfold Fits
  rw [or_iff_right hsmall]
  split
  next hcan =>
    by_cases hcr : cr ∈ cstr t.cache.cached
    · exact iff_of_true (respects_cached h.sound hcount hcr).1 (.inl hcr)
    rw [or_iff_right hcr]
    cases reads with
    | nil => exact iff_of_true (respects_canonical_nil hcount hcr hcan) nofun
    | cons r reads =>
      cases r with
      | none => exact iff_of_true (respects_error hcount hcr) nofun
      | some buf =>
        rw [respects_canonical hcount hcr hcan]
        refine ⟨fun hlt buf' heq => ?_, fun hall => hall buf rfl⟩
        obtain rfl : buf = buf' := Option.some.inj (Option.some.inj heq)
        exact hlt
  next hcan => exact ⟨delivered_of_respects h hcount hcan,
      fun hdelivered => (respects_of_delivered h hcount hcan hdelivered).1⟩

/-- Where the pieces have room, no call makes the cache lose count. -/
theorem level_of_fits (h : t.cache.Level) (hfits : Fits t fd count reads) :
    (ttyReadLine fd count reads t).2.2.cache.Level := by
  by_cases hsmall : count < 3
  · rw [(call_small t fd _ hsmall).1]
    exact h
  have hcount : 3 ≤ count := Nat.not_lt.mp hsmall
  by_cases hcan : t.Canonical fd
  · by_cases hcr : cr ∈ cstr t.cache.cached
    · exact (respects_cached h.sound hcount hcr).2
    have hread : t.cache.readFromCache count = none := readFromCache_eq_none hcr
    match reads with
    | [] =>
      rw [(call_nil fd hcount hread).1]
      exact h
    | none :: reads =>
      rw [(call_error fd _ hcount hread).1]
      exact h
    | some buf :: reads =>
      rw [(call_canonical _ _ hcount hread hcan).1]
      exact (t.ttydbGet_cache fd).symm ▸ h
  · rw [Fits, or_iff_right hsmall, if_neg hcan] at hfits
    exact (respects_of_delivered h hcount hcan hfits).2

end Level

/-! ## Runs -/

/-- What `read` returns on a descriptor that may not be open. -/
def Device.results (d : Device) (fd : Nat) (reads : List (Option Bytes)) : List (Option Bytes) :=
  if fd ∈ d.opened then reads else [none]

/-- Each call of a run has the property, in the state that it finds. -/
def EachCall (P : Tty → Nat → Nat → List (Option Bytes) → Prop) : List Op → Device → Prop
  | [], _ => True
  | o :: ops, d =>
    (∀ fd count reads, o = .readLine fd count reads → P d.tty fd count (d.results fd reads)) ∧
      EachCall P ops (d.step o)

section Run

variable {d : Device}

/-- Every operation keeps the cache level, if its reads fit. -/
theorem step_level (h : d.tty.cache.Level) {o : Op}
    (ho : ∀ fd count reads, o = .readLine fd count reads →
      Fits d.tty fd count (d.results fd reads)) : (d.step o).tty.cache.Level := by
  by_cases hcall : ∃ fd count reads, o = .readLine fd count reads
  · obtain ⟨fd, count, reads, rfl⟩ := hcall
    exact level_of_fits h (ho fd count reads rfl)
  · have hother : ∀ fd count reads, o ≠ .readLine fd count reads := fun fd count reads heq =>
      hcall ⟨fd, count, reads, heq⟩
    rw [step_cache d o hother]
    exact h

theorem init_level : Device.init.tty.cache.Level :=
  ⟨init_valid.cache, by decide +kernel⟩

theorem eachCall_level (h : d.tty.cache.Level) (ops : List Op) :
    EachCall Respects ops d ↔ EachCall Fits ops d := by
  induction ops generalizing d with
  | nil => exact Iff.rfl
  | cons o ops ih =>
    have hiff : (∀ fd count reads, o = .readLine fd count reads →
        Respects d.tty fd count (d.results fd reads)) ↔
        ∀ fd count reads, o = .readLine fd count reads →
          Fits d.tty fd count (d.results fd reads) :=
      forall₃_congr fun _ _ _ => imp_congr_right fun _ => respects_iff h
    unfold EachCall
    rw [hiff]
    exact and_congr_right fun ho => ih (step_level h ho)

/-- Every call of a run respects its buffer, keeps what is cached and ends, if and only if what
is read for each fits. -/
theorem eachCall_iff (ops : List Op) :
    EachCall Respects ops Device.init ↔ EachCall Fits ops Device.init :=
  eachCall_level init_level ops

/-- A line of the canonical terminal fills the buffer. -/
theorem eachCall_fails_full : ¬ ∀ ops : List Op, EachCall Respects ops Device.init := by
  intro hall
  let line : Bytes := List.replicate 1024 97
  have hrespects : Respects (ttyCanonical 7 true true Tty.init) 7 1024 [some line] :=
    (hall [.opens 7, .canonical 7 true true, .readLine 7 1024 [some line]]).2.2.1 7 1024 _ rfl
  have hread : (ttyCanonical 7 true true Tty.init).cache.readFromCache 1024 = none :=
    readFromCache_eq_none (by decide +kernel)
  have hcan : (ttyCanonical 7 true true Tty.init).Canonical 7 := by decide
  have htrace := (call_canonical [] line (by decide) hread hcan).2
  refine absurd (hrespects.within 1024 ?_) (Nat.lt_irrefl 1024)
  rw [htrace, List.mem_range, List.length_replicate]
  exact Nat.lt_succ_self 1024

end Run

end AndroidLearn.Ttytool
