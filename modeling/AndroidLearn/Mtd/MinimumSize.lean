import AndroidLearn.Mtd.Repeat
import Mathlib.Data.Nat.Log

/-!
# The minimum size

`alloc_mtd_repeat_and_do` of `mtd.c`, which is in `Repeat`. It is not to read or write
less than 4096 bytes at once. It asks whether it can go on before it halves the size, so
that the pass behind the last one of at least 4096 bytes is made as well, with pieces of
half of that.

Whether it comes to that pass is up to the device, which answers each transfer as it
likes. A pass is followed by another if there is no memory for one of its pieces, or if
all are transferred and are not the whole range (`Retried`); the size is halved each time,
so that a logarithm counts the passes of at least 4096 bytes.

Theorem: `minimumSize_iff` says for which answers, lengths and descriptors no transfer is
of less than 4096 bytes: those after which not every pass with pieces of at least 4096
bytes is followed by another (`LargeRetried`).
-/

namespace AndroidLearn.Mtd

/-! ## What the device answers -/

/-- `init_len` -/
def initLen (len : Nat) : Nat := if 0x40000 ≤ len then len / 8 else len

/-- `init_loops` -/
def initLoops (len : Nat) : Nat := if 0x40000 ≤ len then 8 else 1

/-- The call leaves `errno` at `ENOMEM`, where `nomem` is what it was. -/
def Outcome.NoMemory {size : Nat} (nomem : Bool) : Outcome size → Prop
  | .full => False
  | .short _ => nomem = true
  | .failure nomem _ => nomem = true

/-- Where a pass begins: the number of calls so far, and whether `errno` is `ENOMEM`. -/
structure Start where
  calls : Nat
  nomem : Bool

/-- The answers to a pass of `loops` pieces that begins at `s`, if another pass is to follow at
`s'`: to one of the pieces there is no memory, or they are all transferred and are not the whole
range. -/
def Retried (dev : Driver) (len loops size : Nat) (s s' : Start) : Prop :=
  ∃ m, (∀ i < m, dev.io (s.calls + i) size = .full) ∧
    (m < loops ∧ (dev.io (s.calls + m) size).NoMemory s.nomem ∧ s' = ⟨s.calls + m + 1, true⟩ ∨
      m = loops ∧ loops * size ≠ len ∧ s' = ⟨s.calls + loops, s.nomem⟩)

/-- The number of passes with pieces of `minAllocSize` or more. -/
def largePasses (size : Nat) : Nat := Nat.log 2 (size / minAllocSize)

/-- Each of these passes is followed by another, the first of them being number `n`. -/
def LargeRetried (dev : Driver) (len n loops size : Nat) (s : Start) : Prop :=
  ∃ start : Nat → Start, start 0 = s ∧ ∀ i < largePasses size,
    Retried dev len (loops * 2 ^ (i + 1)) (size / 2 ^ (i + 1)) (start i) (start (i + 1)) ∧
      dev.seek (n + i) = true

/-- No call is for less than the minimum. -/
def MinimumKept (passes : List Pass) : Prop :=
  ∀ p ∈ passes, ∀ t ∈ p.transfers, minAllocSize ≤ t.size

/-! ## One pass -/

section

variable {dev : Driver} {len size m n curr : Nat} {fd : Descriptor}

/-- A pass makes a call. -/
theorem runPass_ne_nil (dev : Driver) (size n curr : Nat) (fd : Descriptor) :
    (runPass dev size (n + 1) curr fd).transfers ≠ [] := by
  rw [runPass]
  split
  · exact List.cons_ne_nil _ _
  · exact List.cons_ne_nil _ _
  · exact List.cons_ne_nil _ _

/-- The pieces that are transferred at the front of a pass. -/
theorem runPass_full (hfull : ∀ i < m, dev.io (fd.calls + i) size = .full) :
    ∃ transfers, runPass dev size (m + n) curr fd =
      { runPass dev size n (curr + m * size) ⟨fd.position + m * size, fd.calls + m, fd.nomem⟩ with
        transfers := transfers } := by
  induction m generalizing curr fd with
  | zero =>
    rw [Nat.zero_add, Nat.zero_mul]
    exact ⟨_, rfl⟩
  | succ m ih =>
    have hfirst : dev.io fd.calls size = .full := hfull 0 (Nat.succ_pos m)
    have hrest : ∀ i < m, dev.io (fd.calls + 1 + i) size = .full := by
      intro i hi
      have h := hfull (i + 1) (Nat.succ_lt_succ hi)
      rwa [Nat.add_comm i, ← Nat.add_assoc] at h
    obtain ⟨transfers, hpass⟩ :=
      @ih (curr + size) ⟨fd.position + size, fd.calls + 1, fd.nomem⟩ hrest
    rw [Nat.add_right_comm, runPass, hfirst]
    dsimp only
    rw [hpass, Nat.add_mul, Nat.one_mul, Nat.add_comm (m * size), ← Nat.add_assoc,
      ← Nat.add_assoc, Nat.add_assoc fd.calls, Nat.add_comm 1 m]
    exact ⟨_, rfl⟩

/-- A piece that is not transferred whole ends the pass. -/
theorem runPass_stops (dev : Driver) (n curr : Nat) (h : dev.io fd.calls size ≠ .full) :
    ((runPass dev size (n + 1) curr fd).stop ≠ .error ↔
      (dev.io fd.calls size).NoMemory fd.nomem) ∧
    (runPass dev size (n + 1) curr fd).curr = curr ∧
    (runPass dev size (n + 1) curr fd).descriptor.calls = fd.calls + 1 ∧
    ((dev.io fd.calls size).NoMemory fd.nomem →
      (runPass dev size (n + 1) curr fd).descriptor.nomem = true) := by
  rw [runPass]
  cases hio : dev.io fd.calls size with
  | full => exact absurd hio h
  | short count =>
    refine ⟨?_, rfl, rfl, id⟩
    show (if fd.nomem then PassEnd.nomem else .error) ≠ .error ↔ fd.nomem = true
    cases fd.nomem with
    | false => exact iff_of_false (fun hne => hne rfl) Bool.false_ne_true
    | true => exact iff_of_true PassEnd.noConfusion rfl
  | failure nomem position =>
    refine ⟨?_, rfl, rfl, id⟩
    show (if nomem then PassEnd.nomem else .error) ≠ .error ↔ nomem = true
    cases nomem with
    | false => exact iff_of_false (fun hne => hne rfl) Bool.false_ne_true
    | true => exact iff_of_true PassEnd.noConfusion rfl

/-- How many pieces are transferred in front of the first that is not. -/
theorem exists_full (dev : Driver) (size calls loops : Nat) :
    ∃ m, (∀ i < m, dev.io (calls + i) size = .full) ∧
      (m = loops ∨ m < loops ∧ dev.io (calls + m) size ≠ .full) := by
  induction loops with
  | zero => exact ⟨0, fun i hi => absurd hi i.not_lt_zero, .inl rfl⟩
  | succ loops ih =>
    obtain ⟨m, hfull, rfl | ⟨hlt, hne⟩⟩ := ih
    · by_cases hio : dev.io (calls + m) size = .full
      · refine ⟨m + 1, fun i hi => ?_, .inl rfl⟩
        rcases Nat.lt_succ_iff_lt_or_eq.mp hi with hi | rfl
        · exact hfull i hi
        · exact hio
      · exact ⟨m, hfull, .inr ⟨Nat.lt_succ_self m, hio⟩⟩
    · exact ⟨m, hfull, .inr ⟨Nat.lt_succ_of_lt hlt, hne⟩⟩

/-- The number of pieces of which `Retried` speaks is that one. -/
theorem retried_iff {loops : Nat} {s s' : Start}
    (hfull : ∀ i < m, dev.io (s.calls + i) size = .full)
    (hend : m = loops ∨ m < loops ∧ dev.io (s.calls + m) size ≠ .full) :
    Retried dev len loops size s s' ↔
      m < loops ∧ (dev.io (s.calls + m) size).NoMemory s.nomem ∧ s' = ⟨s.calls + m + 1, true⟩ ∨
        m = loops ∧ loops * size ≠ len ∧ s' = ⟨s.calls + loops, s.nomem⟩ := by
  constructor
  · rintro ⟨m', hfull', h⟩
    have hle : m' ≤ loops := by
      rcases h with h | h
      · exact h.1.le
      · exact h.1.le
    have hsame : m' = m := by
      rcases Nat.lt_trichotomy m' m with hlt | heq | hgt
      · rcases h with ⟨-, hno, -⟩ | ⟨rfl, -, -⟩
        · rw [hfull m' hlt] at hno
          exact hno.elim
        · rcases hend with rfl | ⟨hm, -⟩
          · exact absurd hlt (Nat.lt_irrefl _)
          · exact absurd hlt hm.not_gt
      · exact heq
      · rcases hend with rfl | ⟨-, hne⟩
        · exact absurd hgt hle.not_gt
        · exact absurd (hfull' m hgt) hne
    rwa [hsame] at h
  · exact fun h => ⟨m, hfull, h⟩

/-- The pass is followed by another if it does not end with an error and has not come to the end
of the range. -/
theorem retried_iff_runPass {loops : Nat} {s' : Start} (hsize : 0 < size)
    (hlen : loops * size ≤ len) :
    Retried dev len loops size ⟨fd.calls, fd.nomem⟩ s' ↔
      (runPass dev size loops 0 fd).stop ≠ .error ∧ (runPass dev size loops 0 fd).curr ≠ len ∧
        s' = ⟨(runPass dev size loops 0 fd).descriptor.calls,
          (runPass dev size loops 0 fd).descriptor.nomem⟩ := by
  obtain ⟨m, hfull, hend⟩ := exists_full dev size fd.calls loops
  rw [retried_iff hfull hend]
  rcases hend with rfl | ⟨hlt, hne⟩
  · obtain ⟨transfers, hpass⟩ := @runPass_full dev size m 0 0 fd hfull
    rw [Nat.add_zero] at hpass
    rw [hpass]
    show _ ↔ PassEnd.all ≠ .error ∧ 0 + m * size ≠ len ∧ s' = ⟨fd.calls + m, fd.nomem⟩
    simp
  · obtain ⟨n, rfl⟩ := Nat.exists_eq_add_of_lt hlt
    obtain ⟨transfers, hpass⟩ := @runPass_full dev size m (n + 1) 0 fd hfull
    obtain ⟨hstop, hcurr, hcalls, hnomem⟩ :=
      @runPass_stops size ⟨fd.position + m * size, fd.calls + m, fd.nomem⟩ dev n (0 + m * size) hne
    have hshort : 0 + m * size ≠ len := by
      have hless := Nat.mul_lt_mul_of_pos_right hlt hsize
      omega
    rw [Nat.add_assoc, hpass]
    dsimp only
    rw [hcurr, hcalls]
    constructor
    · rintro (⟨-, hno, rfl⟩ | ⟨hall, -, -⟩)
      · exact ⟨hstop.mpr hno, hshort, by rw [hnomem hno]⟩
      · omega
    · rintro ⟨hends, -, rfl⟩
      have hno := hstop.mp hends
      exact .inl ⟨by omega, hno, by rw [hnomem hno]⟩

end

/-! ## All passes -/

/-- A size that cannot be halved has no such pass. -/
theorem largePasses_of_lt {size : Nat} (h : size < 2 * minAllocSize) : largePasses size = 0 := by
  refine Nat.log_of_lt ?_
  rw [Nat.div_lt_iff_lt_mul (by decide)]
  exact h

theorem largePasses_half {size : Nat} (h : 2 * minAllocSize ≤ size) :
    largePasses size = largePasses (size / 2) + 1 := by
  have htwo : 2 ≤ size / minAllocSize := (Nat.le_div_iff_mul_le (by decide)).mpr h
  unfold largePasses
  rw [Nat.log_of_one_lt_of_le (by decide) htwo, Nat.div_div_eq_div_mul, Nat.div_div_eq_div_mul,
    Nat.mul_comm]

section

variable {dev : Driver} {len n loops size : Nat} {s : Start}

/-- With small pieces there is no such pass. -/
theorem largeRetried_of_lt (h : size < 2 * minAllocSize) : LargeRetried dev len n loops size s := by
  refine ⟨fun _ => s, rfl, fun i hi => ?_⟩
  rw [largePasses_of_lt h] at hi
  exact absurd hi i.not_lt_zero

/-- Otherwise it is the first pass, and those behind it. -/
theorem largeRetried_half (h : 2 * minAllocSize ≤ size) :
    LargeRetried dev len n loops size s ↔ dev.seek n = true ∧
      ∃ s', Retried dev len (loops * 2) (size / 2) s s' ∧
        LargeRetried dev len (n + 1) (loops * 2) (size / 2) s' := by
  have hloops (i : Nat) : loops * 2 ^ (i + 1 + 1) = loops * 2 * 2 ^ (i + 1) := by ring
  have hsize (i : Nat) : size / 2 ^ (i + 1 + 1) = size / 2 / 2 ^ (i + 1) := by
    rw [Nat.div_div_eq_div_mul, Nat.pow_succ' (n := i + 1)]
  have hseek (i : Nat) : n + (i + 1) = n + 1 + i := by omega
  unfold LargeRetried
  rw [largePasses_half h]
  constructor
  · rintro ⟨start, rfl, hall⟩
    have hfirst := hall 0 (Nat.succ_pos _)
    refine ⟨hfirst.2, start 1, hfirst.1, fun i => start (i + 1), rfl, fun i hi => ?_⟩
    have hnext := hall (i + 1) (Nat.succ_lt_succ hi)
    rwa [hloops, hsize, hseek] at hnext
  · rintro ⟨hfirst, s', hretried, start, rfl, hall⟩
    refine ⟨fun i => i.casesOn s start, rfl, fun i hi => ?_⟩
    cases i with
    | zero => exact ⟨hretried, hfirst⟩
    | succ i =>
      have hnext := hall i (Nat.lt_of_succ_lt_succ hi)
      rwa [← hloops, ← hsize, ← hseek] at hnext

end

/-- The pieces of a pass are of the minimum size if what it halves is twice that. -/
theorem firstPass_minimum (dev : Driver) {loops size : Nat} (fd : Descriptor)
    (hloops : 0 < loops) :
    (∀ t ∈ (firstPass dev loops size fd).transfers, minAllocSize ≤ t.size) ↔
      2 * minAllocSize ≤ size := by
  have hsize : ∀ t ∈ (firstPass dev loops size fd).transfers, t.size = size / 2 := runPass_size dev
  have hhalf : minAllocSize ≤ size / 2 ↔ 2 * minAllocSize ≤ size := by omega
  obtain ⟨n, hn⟩ := Nat.exists_eq_succ_of_ne_zero (by omega : loops * 2 ≠ 0)
  have hne : (firstPass dev loops size fd).transfers ≠ [] := by
    show (runPass dev (size / 2) (loops * 2) 0 fd).transfers ≠ []
    rw [hn]
    exact runPass_ne_nil dev (size / 2) n 0 fd
  rw [← hhalf]
  constructor
  · intro h
    obtain ⟨t, ht⟩ := List.exists_mem_of_ne_nil _ hne
    rw [← hsize t ht]
    exact h t ht
  · intro h t ht
    rw [hsize t ht]
    exact h

section

variable {dev : Driver} {len n loops size : Nat} {fd : Descriptor}

/-- A pass is tried again with half the size. -/
theorem retried_firstPass (hsize : minAllocSize ≤ size) (hlen : loops * size ≤ len) (s' : Start) :
    Retried dev len (loops * 2) (size / 2) ⟨fd.calls, fd.nomem⟩ s' ↔
      (runPass dev (size / 2) (loops * 2) 0 fd).stop ≠ .error ∧
        (runPass dev (size / 2) (loops * 2) 0 fd).curr ≠ len ∧
        s' = ⟨(runPass dev (size / 2) (loops * 2) 0 fd).descriptor.calls,
          (runPass dev (size / 2) (loops * 2) 0 fd).descriptor.nomem⟩ :=
  retried_iff_runPass (Nat.lt_of_lt_of_le (by decide) (Nat.div_le_div_right hsize))
    ((halve_le loops size).trans hlen)

/-- A pass that no other follows. -/
theorem minimumKept_last (hloops : 0 < loops)
    (hlast : ¬(dev.seek n = true ∧
      ∃ s', Retried dev len (loops * 2) (size / 2) ⟨fd.calls, fd.nomem⟩ s')) :
    MinimumKept [firstPass dev loops size fd] ↔
      ¬LargeRetried dev len n loops size ⟨fd.calls, fd.nomem⟩ := by
  have hkept : MinimumKept [firstPass dev loops size fd] ↔ 2 * minAllocSize ≤ size :=
    List.forall_mem_singleton.trans (firstPass_minimum dev fd hloops)
  rw [hkept]
  constructor
  · intro hlarge hretried
    obtain ⟨hseek, s', hs', -⟩ := (largeRetried_half hlarge).mp hretried
    exact hlast ⟨hseek, s', hs'⟩
  · intro hnot
    by_contra hsmall
    exact hnot (largeRetried_of_lt (Nat.not_le.mp hsmall))

/-- A pass that others follow. -/
theorem minimumKept_cons {passes : List Pass} (s' : Start) (hloops : 0 < loops)
    (hseek : dev.seek n = true)
    (hretried : ∀ s'', Retried dev len (loops * 2) (size / 2) ⟨fd.calls, fd.nomem⟩ s'' ↔ s'' = s')
    (hrest : 2 * minAllocSize ≤ size → (MinimumKept passes ↔
      ¬LargeRetried dev len (n + 1) (loops * 2) (size / 2) s')) :
    MinimumKept (firstPass dev loops size fd :: passes) ↔
      ¬LargeRetried dev len n loops size ⟨fd.calls, fd.nomem⟩ := by
  have hkept : MinimumKept (firstPass dev loops size fd :: passes) ↔
      2 * minAllocSize ≤ size ∧ MinimumKept passes := by
    rw [← firstPass_minimum dev fd hloops]
    exact List.forall_mem_cons
  rw [hkept]
  rcases Nat.lt_or_ge size (2 * minAllocSize) with hsmall | hlarge
  · exact iff_of_false (fun h => h.1.not_gt hsmall) fun h => h (largeRetried_of_lt hsmall)
  · rw [and_iff_right hlarge, hrest hlarge, largeRetried_half hlarge]
    simp only [hseek, hretried, true_and, exists_eq_left]

end

/-- The minimum is kept unless it comes to the pass behind those with large pieces. -/
theorem runPasses_minimum (dev : Driver) {len pos n loops size : Nat} {fd : Descriptor} :
    minAllocSize ≤ size → 0 < loops → loops * size ≤ len →
      (MinimumKept (runPasses dev len pos n loops size fd).2 ↔
        ¬LargeRetried dev len n loops size ⟨fd.calls, fd.nomem⟩) := by
  fun_induction runPasses dev len pos n loops size fd with
  | case1 n loops size fd hsize r pass hstop =>
    intro _ hloops hlen
    refine minimumKept_last hloops ?_
    rintro ⟨-, s', hs'⟩
    exact ((retried_firstPass hsize hlen s').mp hs').1 hstop
  | case2 n loops size fd hsize r pass hstop hcurr =>
    intro _ hloops hlen
    refine minimumKept_last hloops ?_
    rintro ⟨-, s', hs'⟩
    exact ((retried_firstPass hsize hlen s').mp hs').2.1 hcurr
  | case3 n loops size fd hsize r pass hstop hcurr hseek ret passes hrec ih =>
    intro _ hloops hlen
    rw [hrec] at ih
    refine minimumKept_cons ⟨r.descriptor.calls, r.descriptor.nomem⟩ hloops hseek
      (fun s' => ?_) fun hlarge => ?_
    · rw [retried_firstPass hsize hlen]
      exact ⟨fun h => h.2.2, fun h => ⟨hstop, hcurr, h⟩⟩
    · exact ih (by omega) (by omega) ((halve_le loops size).trans hlen)
  | case4 n loops size fd hsize r pass hstop hcurr hseek =>
    intro _ hloops _
    refine minimumKept_last hloops ?_
    exact fun h => hseek h.1
  | case5 n loops size fd hsize =>
    intro h
    exact absurd h hsize

/-! ## The routine -/

section

variable {dev : Driver} {len : Nat} {fd : Descriptor}

/-- The function as its passes. -/
theorem allocMtd_eq (dev : Driver) (len : Nat) (fd : Descriptor) :
    allocMtdRepeatAndDo dev len fd =
      runPasses dev len fd.position 0 (initLoops len) (initLen len) fd := by
  unfold allocMtdRepeatAndDo initLoops initLen
  split_ifs
  · rfl
  · rfl

/-- There is a first call. -/
theorem initLoops_pos (len : Nat) : 0 < initLoops len := by
  unfold initLoops
  split_ifs
  · decide
  · decide

/-- The first pass does not go beyond the length. -/
theorem initLoops_mul_le (len : Nat) : initLoops len * initLen len ≤ len := by
  unfold initLoops initLen
  split_ifs
  · exact Nat.mul_div_le len 8
  · exact (Nat.one_mul len).le

/-- It does not begin below the least size. -/
theorem le_initLen (hlen : minAllocSize ≤ len) : minAllocSize ≤ initLen len := by
  unfold initLen
  split_ifs with hbig
  · exact (by decide : minAllocSize ≤ 0x40000 / 8).trans (Nat.div_le_div_right hbig)
  · exact hlen

/-- A device that transfers everything. -/
def healthyDriver : Driver := ⟨fun _ _ => .full, fun _ => true⟩

theorem retried_healthy {loops size : Nat} {s s' : Start} :
    Retried healthyDriver len loops size s s' ↔
      loops * size ≠ len ∧ s' = ⟨s.calls + loops, s.nomem⟩ := by
  have hfull : ∀ i < loops, healthyDriver.io (s.calls + i) size = .full := fun _ _ => rfl
  rw [retried_iff hfull (.inl rfl)]
  simp

/-- Later passes have no more of the range than earlier ones. -/
theorem halvings_le (loops size i : Nat) :
    loops * 2 ^ (i + 1) * (size / 2 ^ (i + 1)) ≤ loops * 2 * (size / 2) := by
  induction i with
  | zero => exact Nat.le_refl _
  | succ i ih =>
    refine Nat.le_trans ?_ ih
    rw [Nat.pow_succ (m := i + 1), ← Nat.mul_assoc, ← Nat.div_div_eq_div_mul]
    exact halve_le _ _

/-- A device without faults is asked down to the least size, if the lengths never fit. -/
theorem largeRetried_healthy {n loops size : Nat} {s : Start} (hlen : loops * size ≤ len) :
    LargeRetried healthyDriver len n loops size s ↔
      largePasses size = 0 ∨ loops * 2 * (size / 2) ≠ len := by
  constructor
  · rintro ⟨start, -, hall⟩
    rcases Nat.eq_zero_or_pos (largePasses size) with hnone | hpos
    · exact .inl hnone
    · exact .inr (retried_healthy.mp (hall 0 hpos).1).1
  · intro h
    refine ⟨fun i => i.rec s fun i s => ⟨s.calls + loops * 2 ^ (i + 1), s.nomem⟩, rfl,
      fun i hi => ⟨retried_healthy.mpr ⟨?_, rfl⟩, rfl⟩⟩
    have hless := h.resolve_left (Nat.ne_zero_of_lt hi)
    have hfirst := (halve_le loops size).trans hlen
    have hlater := halvings_le loops size i
    omega

/-- Also where nothing fails, the pieces become too small if the length is not a multiple of the
number of pieces. -/
theorem minimumKept_healthy (fd : Descriptor) (hlen : minAllocSize ≤ len) :
    MinimumKept (allocMtdRepeatAndDo healthyDriver len fd).2 ↔
      2 * minAllocSize ≤ initLen len ∧ initLoops len * 2 ∣ len := by
  have hdvd : initLoops len * 2 * (initLen len / 2) = len ↔ initLoops len * 2 ∣ len := by
    unfold initLoops initLen
    split_ifs
    · omega
    · omega
  have hlarge : largePasses (initLen len) = 0 ↔ ¬2 * minAllocSize ≤ initLen len := by
    constructor
    · intro hnone hle
      rw [largePasses_half hle] at hnone
      exact Nat.succ_ne_zero _ hnone
    · exact fun hlt => largePasses_of_lt (Nat.not_le.mp hlt)
  rw [allocMtd_eq, runPasses_minimum _ (le_initLen hlen) (initLoops_pos len) (initLoops_mul_le len),
    largeRetried_healthy (initLoops_mul_le len), hlarge, not_or, not_not, not_ne_iff, hdvd]

/-- A device that never has memory. -/
def noMemoryDriver : Driver := ⟨fun _ _ => .failure true 0, fun _ => true⟩

/-- There is no length that is safe from every pattern of failures. -/
theorem not_minimumKept_noMemory (fd : Descriptor) (hlen : minAllocSize ≤ len) :
    ¬MinimumKept (allocMtdRepeatAndDo noMemoryDriver len fd).2 := by
  rw [allocMtd_eq, runPasses_minimum _ (le_initLen hlen) (initLoops_pos len) (initLoops_mul_le len),
    not_not]
  refine ⟨fun i => i.rec ⟨fd.calls, fd.nomem⟩ fun _ s => ⟨s.calls + 1, true⟩, rfl,
    fun i _ => ⟨⟨0, fun i hi => absurd hi i.not_lt_zero, .inl ⟨?_, rfl, rfl⟩⟩, rfl⟩⟩
  exact Nat.mul_pos (initLoops_pos len) (Nat.two_pow_pos _)

/-- Every call of a pass has its size. -/
theorem runPasses_size (dev : Driver) (len pos n loops size : Nat) (fd : Descriptor) :
    ∀ p ∈ (runPasses dev len pos n loops size fd).2, ∀ t ∈ p.transfers, t.size = p.size := by
  fun_induction runPasses dev len pos n loops size fd with
  | case1 n loops size fd hsize r pass hstop =>
    exact List.forall_mem_singleton.mpr (runPass_size dev)
  | case2 n loops size fd hsize r pass hstop hcurr =>
    exact List.forall_mem_singleton.mpr (runPass_size dev)
  | case3 n loops size fd hsize r pass hstop hcurr hseek ret passes hrec ih =>
    rw [hrec] at ih
    exact List.forall_mem_cons.mpr ⟨runPass_size dev, ih⟩
  | case4 n loops size fd hsize r pass hstop hcurr hseek =>
    exact List.forall_mem_singleton.mpr (runPass_size dev)
  | case5 n loops size fd hsize => exact List.forall_mem_nil _

/-- Half of the minimum is kept by every length and every device. -/
theorem half_minimum (dev : Driver) (len : Nat) (fd : Descriptor) :
    ∀ p ∈ (allocMtdRepeatAndDo dev len fd).2, ∀ t ∈ p.transfers, minAllocSize / 2 ≤ t.size := by
  intro p hp t ht
  have hge := ((allocMtd_repeats dev len fd).bounded p hp).size_ge
  rw [allocMtd_eq] at hp
  rw [runPasses_size dev _ _ _ _ _ _ p hp t ht]
  exact hge

/-- Below 2^42 bytes the number of pieces stays in an `int`. -/
theorem loops_lt (dev : Driver) (fd : Descriptor) (hlen : len < 2 ^ 42) :
    ∀ p ∈ (allocMtdRepeatAndDo dev len fd).2, p.loops < 2 ^ 31 := by
  intro p hp
  have hbounded := (allocMtd_repeats dev len fd).bounded p hp
  have hle : p.loops * 2048 ≤ len :=
    (Nat.mul_le_mul_left p.loops hbounded.size_ge).trans hbounded.fits
  omega

/-- For every length from the minimum on: each call is for 4096 bytes or more, unless all passes
with such pieces are followed by another. -/
theorem minimumSize_iff (dev : Driver) (len : Nat) (fd : Descriptor) (hlen : minAllocSize ≤ len) :
    MinimumKept (allocMtdRepeatAndDo dev len fd).2 ↔
      ¬LargeRetried dev len 0 (initLoops len) (initLen len) ⟨fd.calls, fd.nomem⟩ := by
  rw [allocMtd_eq]
  exact runPasses_minimum dev (le_initLen hlen) (initLoops_pos len) (initLoops_mul_le len)

/-- Two pieces of 4096 bytes are all of 8192. -/
theorem minimumSize_healthy : minAllocSize ≤ 8192 ∧
    MinimumKept (allocMtdRepeatAndDo healthyDriver 8192 ⟨0, 0, false⟩).2 := by
  refine ⟨by decide, (minimumSize_iff healthyDriver 8192 ⟨0, 0, false⟩ (by decide)).mpr ?_⟩
  rw [largeRetried_healthy (initLoops_mul_le 8192)]
  rintro (hnone | hne)
  · rw [largePasses_half (by decide)] at hnone
    exact Nat.succ_ne_zero _ hnone
  · exact hne rfl

/-- The device that has memory for 2048 bytes gets calls for 2048. -/
theorem minimumSize_fails_small :
    ¬MinimumKept (allocMtdRepeatAndDo smallDriver 8192 ⟨0, 0, false⟩).2 := by
  intro h
  have hpasses : (allocMtdRepeatAndDo smallDriver 8192 ⟨0, 0, false⟩).2 =
      [⟨2, 4096, [⟨0, 0, 4096, 0⟩]⟩,
        ⟨4, 2048, [⟨0, 0, 2048, 2048⟩, ⟨2048, 2048, 2048, 2048⟩, ⟨4096, 4096, 2048, 2048⟩,
          ⟨6144, 6144, 2048, 2048⟩]⟩] := by
    simp [allocMtdRepeatAndDo, runPasses, runPass, minAllocSize, smallDriver]
  rw [hpasses] at h
  exact absurd (h _ (List.mem_of_getLast? rfl) _ List.mem_cons_self) (by decide)

end

end AndroidLearn.Mtd
