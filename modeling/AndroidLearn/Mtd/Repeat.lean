import Mathlib.Data.List.Basic
import Mathlib.Tactic.Ring

/-!
# Repeated I/O in smaller pieces

`alloc_mtd_repeat_and_do` and `io` of `mtd.c`. It reads or writes a range in passes. Each
pass has pieces of half the size of those of the pass before and twice as many of them,
and begins at the start of the range again. A pass ends at the first piece that is not
transferred whole; if `errno` is `ENOMEM` then, the next pass follows.

The device answers the calls of `read` or `write` by their number and the size they ask
for, and each `lseek` by its number (`Driver`). The passes that were made are the result,
each with its transfers: the place, the size, and what came of it.

Neither number needs to divide the range evenly. What carries the bounds is that the
number of pieces times their size never exceeds the range; the routine succeeds when a
pass leaves nothing out.

Theorem: `repeats_spec`, for every device, length and descriptor. The transfers of a pass
stay in the range, in order and without gaps; each is the device's answer to that call,
and there are no others; there are 19 passes at most; and the routine returns 0 exactly
when the last one has transferred the whole range.
-/

namespace AndroidLearn.Mtd

/-! ## The device -/

/-- How a call of `read` or `write` for `size` bytes ends. A call that fails may leave the
descriptor anywhere. -/
inductive Outcome (size : Nat)
  | full
  | short (count : Fin size)
  | failure (nomem : Bool) (position : Nat)

/-- The bytes that such a call says it has transferred. -/
def Outcome.count {size : Nat} : Outcome size → Nat
  | full => size
  | short count => count
  | failure .. => 0

/-- What the device answers: to the calls of `io_func`, and to each `lseek64` back. -/
structure Driver where
  io : Nat → (size : Nat) → Outcome size
  seek : Nat → Bool

/-- The descriptor: its position, the number of calls so far, and whether `errno` is
`ENOMEM`. A call that transfers something does not set `errno`. -/
structure Descriptor where
  position : Nat
  calls : Nat
  nomem : Bool

/-- A call of `io_func` for `size` bytes at `addr + buffer`, with the bytes that it says it
has transferred. -/
structure Transfer where
  buffer : Nat
  position : Nat
  size : Nat
  count : Nat
  deriving DecidableEq

/-! ## The routine -/

/-- How a pass ends: after all pieces, at a piece without memory, or by `return -1`. -/
inductive PassEnd
  | all
  | nomem
  | error
  deriving DecidableEq

/-- What a pass comes to. -/
structure PassResult where
  transfers : List Transfer
  stop : PassEnd
  /-- `curr_data - addr` -/
  curr : Nat
  descriptor : Descriptor

/-- The loop over the pieces, with the number of pieces that are left. -/
def runPass (dev : Driver) (size : Nat) : Nat → Nat → Descriptor → PassResult
  | 0, curr, fd => ⟨[], .all, curr, fd⟩
  | n + 1, curr, fd =>
    match dev.io fd.calls size with
    | .full =>
      let r := runPass dev size n (curr + size) ⟨fd.position + size, fd.calls + 1, fd.nomem⟩
      { r with transfers := ⟨curr, fd.position, size, size⟩ :: r.transfers }
    | .short count =>
      ⟨[⟨curr, fd.position, size, count⟩], if fd.nomem then .nomem else .error, curr,
        ⟨fd.position + count, fd.calls + 1, fd.nomem⟩⟩
    | .failure nomem position =>
      ⟨[⟨curr, fd.position, size, 0⟩], if nomem then .nomem else .error, curr,
        ⟨position, fd.calls + 1, nomem⟩⟩

/-- A pass: its number of calls, their size, and those it made. -/
structure Pass where
  loops : Nat
  size : Nat
  transfers : List Transfer
  deriving DecidableEq

/-- The least size, 4k. -/
def minAllocSize : Nat := 0x1000

/-- The loop over the passes; `n` counts them. -/
def runPasses (dev : Driver) (len pos n loops size : Nat) (fd : Descriptor) : Int × List Pass :=
  if minAllocSize ≤ size then
    let r := runPass dev (size / 2) (loops * 2) 0 fd
    let pass : Pass := ⟨loops * 2, size / 2, r.transfers⟩
    if r.stop = .error then (-1, [pass])
    else if r.curr = len then (0, [pass])
    else if dev.seek n then
      let (ret, passes) :=
        runPasses dev len pos (n + 1) (loops * 2) (size / 2) { r.descriptor with position := pos }
      (ret, pass :: passes)
    else (-1, [pass])
  else (-1, [])
termination_by size
decreasing_by
  have hpos : 0 < size := Nat.lt_of_lt_of_le (by decide) ‹minAllocSize ≤ size›
  omega

/-- `alloc_mtd_repeat_and_do`, with its passes. From 0x40000 bytes on it begins with eight
pieces. -/
def allocMtdRepeatAndDo (dev : Driver) (len : Nat) (fd : Descriptor) : Int × List Pass :=
  if 0x40000 ≤ len then runPasses dev len fd.position 0 8 (len / 8) fd
  else runPasses dev len fd.position 0 1 len fd

/-- `io`: the whole range at once, and in pieces if there is no memory for that. -/
def Descriptor.io (dev : Driver) (len : Nat) (fd : Descriptor) : Int :=
  let (whole, nomem) := match dev.io fd.calls len with
    | .full => (true, fd.nomem)
    | .short _ => (false, fd.nomem)
    | .failure nomem _ => (false, nomem)
  if whole then len
  else if nomem = false then -1
  else if dev.seek 0 = false then -1
  else
    let rest : Driver := { dev with seek := fun n => dev.seek (n + 1) }
    if (allocMtdRepeatAndDo rest len ⟨fd.position, fd.calls + 1, nomem⟩).1 = 0 then len else -1

/-! ## One pass -/

/-- The transfers follow each other in the buffer and on the device, from `pos` on, when
`done` bytes have been transferred. -/
def InOrder (pos : Nat) : Nat → List Transfer → Prop
  | _, [] => True
  | done, t :: transfers =>
    t.buffer = done ∧ t.position = pos + done ∧ InOrder pos (done + t.count) transfers

/-- What was transferred together. -/
def total (transfers : List Transfer) : Nat := (transfers.map Transfer.count).sum

/-- The call stays in the range, in memory and on the device. -/
def Transfer.Within (len pos : Nat) (t : Transfer) : Prop :=
  t.buffer + t.size ≤ len ∧ pos ≤ t.position ∧ t.position + t.size ≤ pos + len

/-- All bytes of the range, once and in order. -/
def Pass.Complete (len pos : Nat) (p : Pass) : Prop :=
  InOrder pos 0 p.transfers ∧ total p.transfers = len

/-- The transfers are the device's answers, in the order of the calls, to the calls from that
number on. -/
def Answered (dev : Driver) : Nat → List Transfer → Prop
  | _, [] => True
  | calls, t :: transfers =>
    t.count = (dev.io calls t.size).count ∧ Answered dev (calls + 1) transfers

/-- Calls, and the calls behind them. -/
theorem answered_append (dev : Driver) (ts us : List Transfer) (calls : Nat) :
    Answered dev calls (ts ++ us) ↔
      Answered dev calls ts ∧ Answered dev (calls + ts.length) us := by
  induction ts generalizing calls with
  | nil => exact ⟨fun h => ⟨trivial, h⟩, And.right⟩
  | cons t ts ih =>
    have hcalls : calls + (t :: ts).length = calls + 1 + ts.length := by
      rw [List.length_cons]
      omega
    rw [hcalls]
    show _ ∧ Answered dev (calls + 1) (ts ++ us) ↔ _
    rw [ih, ← and_assoc]
    rfl

/-- Each piece has been asked for, up to one that was not transferred whole. -/
def Pass.Asked (p : Pass) : Prop :=
  p.transfers.length = p.loops ∨ ∃ t, p.transfers.getLast? = some t ∧ t.count < t.size

/-- A pass has the answers of the device, in the order of the calls. -/
theorem runPass_answered (dev : Driver) {size : Nat} :
    ∀ {n curr : Nat} {fd : Descriptor},
      Answered dev fd.calls (runPass dev size n curr fd).transfers ∧
      (runPass dev size n curr fd).descriptor.calls =
        fd.calls + (runPass dev size n curr fd).transfers.length
  | 0, _, _ => ⟨trivial, rfl⟩
  | n + 1, curr, fd => by
    rw [runPass]
    split
    next hanswer =>
      obtain ⟨hrest, hcalls⟩ := @runPass_answered dev size n (curr + size)
        ⟨fd.position + size, fd.calls + 1, fd.nomem⟩
      refine ⟨⟨?_, hrest⟩, ?_⟩
      · show size = (dev.io fd.calls size).count
        rw [hanswer]
        rfl
      · refine hcalls.trans ?_
        show fd.calls + 1 + _ = fd.calls + (_ + 1)
        omega
    next count hanswer =>
      refine ⟨⟨?_, trivial⟩, rfl⟩
      show count.val = (dev.io fd.calls size).count
      rw [hanswer]
      rfl
    next hanswer =>
      refine ⟨⟨?_, trivial⟩, rfl⟩
      show 0 = (dev.io fd.calls size).count
      rw [hanswer]
      rfl

/-- It makes a call, unless none is asked for. -/
theorem runPass_asked (dev : Driver) {size : Nat} (hsize : 0 < size) :
    ∀ {n curr : Nat} {fd : Descriptor},
      Pass.Asked ⟨n, size, (runPass dev size n curr fd).transfers⟩
  | 0, _, _ => .inl rfl
  | n + 1, curr, fd => by
    rw [runPass]
    split
    next =>
      rcases @runPass_asked dev size hsize n (curr + size)
        ⟨fd.position + size, fd.calls + 1, fd.nomem⟩ with hall | ⟨t, hlast, hless⟩
      · exact .inl (congrArg Nat.succ hall)
      · refine .inr ⟨t, ?_, hless⟩
        have hlast' := List.getLast?_cons (a := (⟨curr, fd.position, size, size⟩ : Transfer))
          (l := (runPass dev size n (curr + size)
            ⟨fd.position + size, fd.calls + 1, fd.nomem⟩).transfers)
        rw [hlast] at hlast'
        exact hlast'
    next count _ => exact .inr ⟨_, rfl, count.isLt⟩
    next => exact .inr ⟨_, rfl, hsize⟩

/-- Every call has the size of the pass. -/
theorem runPass_size (dev : Driver) {size : Nat} :
    ∀ {n curr : Nat} {fd : Descriptor}, ∀ t ∈ (runPass dev size n curr fd).transfers, t.size = size
  | 0, _, _ => List.forall_mem_nil _
  | n + 1, curr, fd => by
    rw [runPass]
    split
    · exact List.forall_mem_cons.mpr ⟨rfl, runPass_size dev⟩
    · exact List.forall_mem_singleton.mpr rfl
    · exact List.forall_mem_singleton.mpr rfl

/-- Every call is inside the data. -/
theorem runPass_within (dev : Driver) {len pos size : Nat} :
    ∀ {n curr : Nat} {fd : Descriptor}, fd.position = pos + curr → curr + n * size ≤ len →
      ∀ t ∈ (runPass dev size n curr fd).transfers, t.Within len pos
  | 0, _, _, _, _ => List.forall_mem_nil _
  | n + 1, curr, fd, hfd, hlen => by
    rw [Nat.add_mul, Nat.one_mul] at hlen
    have hhere : curr + size ≤ len ∧ pos ≤ fd.position ∧ fd.position + size ≤ pos + len := by omega
    rw [runPass]
    split
    · refine List.forall_mem_cons.mpr ⟨hhere, ?_⟩
      exact runPass_within dev (by show fd.position + size = _; omega) (by omega)
    · exact List.forall_mem_singleton.mpr hhere
    · exact List.forall_mem_singleton.mpr hhere

/-- The calls go on where the last one has ended. -/
theorem runPass_inOrder (dev : Driver) {pos size : Nat} :
    ∀ {n curr : Nat} {fd : Descriptor}, fd.position = pos + curr →
      InOrder pos curr (runPass dev size n curr fd).transfers
  | 0, _, _, _ => trivial
  | n + 1, curr, fd, hfd => by
    rw [runPass]
    split
    · refine ⟨rfl, hfd, runPass_inOrder dev ?_⟩
      show fd.position + size = pos + (curr + size)
      omega
    · exact ⟨rfl, hfd, trivial⟩
    · exact ⟨rfl, hfd, trivial⟩

/-- After all pieces, their bytes have been transferred; otherwise fewer have been. -/
theorem runPass_total (dev : Driver) {size : Nat} (hsize : 0 < size) :
    ∀ (n curr : Nat) (fd : Descriptor),
      let r := runPass dev size n curr fd
      (r.stop = .all → r.curr = curr + n * size ∧ total r.transfers = n * size) ∧
      (r.stop ≠ .all → r.curr < curr + n * size ∧ total r.transfers < n * size)
  | 0, _, _ => by simp [runPass, total]
  | n + 1, curr, fd => by
    rw [Nat.add_mul, Nat.one_mul, runPass]
    split
    · obtain ⟨hall, hless⟩ := runPass_total dev hsize n (curr + size)
        ⟨fd.position + size, fd.calls + 1, fd.nomem⟩
      constructor
      · intro hstop
        obtain ⟨hcurr, htotal⟩ := hall hstop
        refine ⟨hcurr.trans (by omega), ?_⟩
        show size + total _ = _
        omega
      · intro hstop
        obtain ⟨hcurr, htotal⟩ := hless hstop
        refine ⟨Nat.lt_of_lt_of_le hcurr (by omega), ?_⟩
        show size + total _ < _
        omega
    · rename_i count _
      have hcount := count.isLt
      refine ⟨fun hstop => ?_, fun _ => ⟨by show curr < _; omega, ?_⟩⟩
      · cases hnomem : fd.nomem <;> simp [hnomem] at hstop
      · show count.val + 0 < _
        omega
    · rename_i nomem position _
      refine ⟨fun hstop => ?_, fun _ => ⟨by show curr < _; omega, ?_⟩⟩
      · cases nomem <;> simp at hstop
      · show 0 + 0 < _
        omega

/-! ## All passes -/

/-- A pass of the routine: its number of pieces times their size is in the range, it asks for
one piece after the other from the original position on, and it stays in the range. -/
structure Pass.Bounded (len pos : Nat) (p : Pass) : Prop where
  fits : p.loops * p.size ≤ len
  size_ge : minAllocSize / 2 ≤ p.size
  sized : ∀ t ∈ p.transfers, t.size = p.size
  within : ∀ t ∈ p.transfers, t.Within len pos
  inOrder : InOrder pos 0 p.transfers
  asked : p.Asked

/-- Twice the pieces of half the size are no more than before. -/
theorem halve_le (loops size : Nat) : loops * 2 * (size / 2) ≤ loops * size := by
  have hhalf : 2 * (size / 2) ≤ size := by omega
  calc loops * 2 * (size / 2) = loops * (2 * (size / 2)) := by ring
    _ ≤ loops * size := Nat.mul_le_mul_left loops hhalf

/-- The pass that `runPasses` makes first. -/
def firstPass (dev : Driver) (loops size : Nat) (fd : Descriptor) : Pass :=
  ⟨loops * 2, size / 2, (runPass dev (size / 2) (loops * 2) 0 fd).transfers⟩

/-- The first pass transfers no more than was asked for. -/
theorem firstPass_bounded (dev : Driver) {len loops size : Nat} (fd : Descriptor)
    (hsize : minAllocSize ≤ size) (hlen : loops * size ≤ len) :
    (firstPass dev loops size fd).Bounded len fd.position := by
  have hfits := (halve_le loops size).trans hlen
  have hpos : 0 < size / 2 := Nat.lt_of_lt_of_le (by decide) (Nat.div_le_div_right hsize)
  refine ⟨hfits, Nat.div_le_div_right hsize, runPass_size dev, ?_, runPass_inOrder dev rfl,
    runPass_asked dev hpos⟩
  exact runPass_within dev rfl (by omega)

/-- `curr_data - addr == len` after a pass that did not return says that the pass is
complete. -/
theorem firstPass_complete_iff (dev : Driver) {len loops size : Nat} (fd : Descriptor)
    (hsize : minAllocSize ≤ size) (hlen : loops * size ≤ len) :
    (firstPass dev loops size fd).Complete len fd.position ↔
      (runPass dev (size / 2) (loops * 2) 0 fd).stop ≠ .error ∧
      (runPass dev (size / 2) (loops * 2) 0 fd).curr = len := by
  have hfits := (halve_le loops size).trans hlen
  have hpos : 0 < size / 2 := Nat.lt_of_lt_of_le (by decide) (Nat.div_le_div_right hsize)
  obtain ⟨hall, hless⟩ := runPass_total dev hpos (loops * 2) 0 fd
  have horder : InOrder fd.position 0 (firstPass dev loops size fd).transfers :=
    runPass_inOrder dev rfl
  by_cases hstop : (runPass dev (size / 2) (loops * 2) 0 fd).stop = .all
  · obtain ⟨hcurr, htotal⟩ := hall hstop
    constructor
    · intro h
      refine ⟨by rw [hstop]; decide, ?_⟩
      rw [hcurr, Nat.zero_add, ← htotal]
      exact h.2
    · intro h
      refine ⟨horder, ?_⟩
      rw [← h.2, hcurr, Nat.zero_add]
      exact htotal
  · obtain ⟨hcurr, htotal⟩ := hless hstop
    constructor
    · intro h
      have hlt : total (firstPass dev loops size fd).transfers < len := by
        exact Nat.lt_of_lt_of_le htotal hfits
      rw [h.2] at hlt
      exact absurd hlt (Nat.lt_irrefl _)
    · intro h
      omega

/-- The passes from `size` on. There is one at most for each halving of `size` down to
half of `minAllocSize`, and what they transfer is what the device answers. -/
structure Repeats (dev : Driver) (len size : Nat) (fd : Descriptor) (result : Int × List Pass) :
    Prop where
  bounded : ∀ p ∈ result.2, p.Bounded len fd.position
  answered : Answered dev fd.calls (result.2.flatMap Pass.transfers)
  begins : minAllocSize ≤ size → result.2 ≠ []
  ends : result.2 = [] ∨ 2 ^ (11 + result.2.length) ≤ size
  ret : result.1 = 0 ∨ result.1 = -1
  succeeds : result.1 = 0 ↔ ∃ p, result.2.getLast? = some p ∧ p.Complete len fd.position

section Repeats

variable {dev : Driver} {len loops size : Nat} {fd : Descriptor}

/-- A pass that ends the routine. -/
theorem repeats_last {ret : Int} (hsize : minAllocSize ≤ size) (hlen : loops * size ≤ len)
    (hret : ret = 0 ∨ ret = -1)
    (hcomplete : ret = 0 ↔ (firstPass dev loops size fd).Complete len fd.position) :
    Repeats dev len size fd (ret, [firstPass dev loops size fd]) := by
  refine ⟨List.forall_mem_singleton.mpr (firstPass_bounded dev fd hsize hlen), ?_,
    fun _ => List.cons_ne_nil _ _, .inr hsize, hret, ?_⟩
  · rw [List.flatMap_singleton]
    exact (runPass_answered dev).1
  · show ret = 0 ↔ ∃ q, some (firstPass dev loops size fd) = some q ∧ q.Complete len fd.position
    rw [hcomplete]
    constructor
    · intro h
      exact ⟨_, rfl, h⟩
    · intro h
      obtain ⟨q, hq, h⟩ := h
      obtain rfl := Option.some.inj hq
      exact h

/-- A pass that others follow. -/
theorem repeats_cons {result : Int × List Pass} (hsize : minAllocSize ≤ size)
    (hlen : loops * size ≤ len)
    (hcomplete : ¬ (firstPass dev loops size fd).Complete len fd.position)
    (h : Repeats dev len (size / 2)
      { (runPass dev (size / 2) (loops * 2) 0 fd).descriptor with position := fd.position }
      result) :
    Repeats dev len size fd (result.1, firstPass dev loops size fd :: result.2) := by
  obtain ⟨hfirst, hcalls⟩ := @runPass_answered dev (size / 2) (loops * 2) 0 fd
  refine ⟨List.forall_mem_cons.mpr ⟨firstPass_bounded dev fd hsize hlen, h.bounded⟩, ?_,
    fun _ => List.cons_ne_nil _ _, .inr ?_, h.ret, ?_⟩
  · -- the calls of this pass, and then those of the others
    rw [List.flatMap_cons]
    refine (answered_append dev _ _ _).mpr ⟨hfirst, ?_⟩
    have hrest := h.answered
    dsimp only at hrest
    rwa [hcalls] at hrest
  · show 2 ^ (11 + (result.2.length + 1)) ≤ size
    rcases h.ends with hnil | hpow
    · rw [hnil]
      exact hsize
    · rw [← Nat.add_assoc, Nat.pow_succ]
      omega
  · show result.1 = 0 ↔
      ∃ q, (firstPass dev loops size fd :: result.2).getLast? = some q ∧ q.Complete len fd.position
    rw [h.succeeds]
    cases hlast : result.2 with
    | nil =>
      -- nothing follows after all: neither side
      constructor
      · intro h'
        obtain ⟨q, hq, -⟩ := h'
        exact absurd hq (by simp)
      · intro h'
        obtain ⟨q, hq, hq'⟩ := h'
        obtain rfl : firstPass dev loops size fd = q := by simpa using hq
        exact absurd hq' hcomplete
    | cons q passes => rw [List.getLast?_cons_cons]

end Repeats

/-- The passes keep the contract. -/
theorem runPasses_repeats (dev : Driver) {len pos n loops size : Nat} {fd : Descriptor} :
    fd.position = pos → loops * size ≤ len →
      Repeats dev len size fd (runPasses dev len pos n loops size fd) := by
  fun_induction runPasses dev len pos n loops size fd with
  | case1 n loops size fd hsize r pass hstop =>
    intro _ hlen
    refine repeats_last hsize hlen (.inr rfl) ?_
    have hcomplete := firstPass_complete_iff dev fd hsize hlen
    refine iff_of_false (by decide) fun h => (hcomplete.mp h).1 hstop
  | case2 n loops size fd hsize r pass hstop hcurr =>
    intro _ hlen
    refine repeats_last hsize hlen (.inl rfl) ?_
    exact iff_of_true rfl ((firstPass_complete_iff dev fd hsize hlen).mpr ⟨hstop, hcurr⟩)
  | case3 n loops size fd hsize r pass hstop hcurr hseek ret passes hrec ih =>
    intro hpos hlen
    subst hpos
    have hfits := (halve_le loops size).trans hlen
    have hrest := ih rfl hfits
    rw [hrec] at hrest
    refine repeats_cons hsize hlen (fun h => ?_) hrest
    exact hcurr ((firstPass_complete_iff dev fd hsize hlen).mp h).2
  | case4 n loops size fd hsize r pass hstop hcurr hseek =>
    intro _ hlen
    refine repeats_last hsize hlen (.inr rfl) ?_
    refine iff_of_false (by decide) fun h => ?_
    exact hcurr ((firstPass_complete_iff dev fd hsize hlen).mp h).2
  | case5 n loops size fd hsize =>
    intro _ _
    refine ⟨List.forall_mem_nil _, trivial, fun h => absurd h hsize, .inl rfl, .inr rfl, ?_⟩
    refine iff_of_false (by decide) fun h => ?_
    obtain ⟨p, hp, -⟩ := h
    exact absurd hp (by simp)

theorem allocMtd_repeats (dev : Driver) (len : Nat) (fd : Descriptor) :
    Repeats dev len len fd (allocMtdRepeatAndDo dev len fd) := by
  unfold allocMtdRepeatAndDo
  split
  next hlarge =>
    have h := runPasses_repeats dev (n := 0) (show fd.position = fd.position from rfl)
      (Nat.mul_div_le len 8)
    have hbegins : minAllocSize ≤ len / 8 := (by decide : minAllocSize ≤ 0x40000 / 8).trans
      (Nat.div_le_div_right hlarge)
    exact ⟨h.bounded, h.answered, fun _ => h.begins hbegins,
      h.ends.imp_right fun hpow => hpow.trans (Nat.div_le_self len 8), h.ret, h.succeeds⟩
  next => exact runPasses_repeats dev rfl (Nat.one_mul len).le

/-- The routine asks the device for one piece after the other, each pass from the original
position on, and believes its answers. It stays in the range, ends after 19 passes at most, and
returns 0 exactly when its last pass transferred all bytes, once and in order, from the original
position on. -/
theorem repeats_spec (dev : Driver) (len : Nat) (fd : Descriptor) (hlen : len < 2 ^ 31) :
    (∀ p ∈ (allocMtdRepeatAndDo dev len fd).2, p.loops * p.size ≤ len ∧ p.loops < 2 ^ 31 ∧
      p.Asked ∧ InOrder fd.position 0 p.transfers ∧
      ∀ t ∈ p.transfers, t.size = p.size ∧ t.Within len fd.position) ∧
    Answered dev fd.calls ((allocMtdRepeatAndDo dev len fd).2.flatMap Pass.transfers) ∧
    (minAllocSize ≤ len → (allocMtdRepeatAndDo dev len fd).2 ≠ []) ∧
    (allocMtdRepeatAndDo dev len fd).2.length ≤ 19 ∧
    ((allocMtdRepeatAndDo dev len fd).1 = 0 ∨ (allocMtdRepeatAndDo dev len fd).1 = -1) ∧
    ((allocMtdRepeatAndDo dev len fd).1 = 0 ↔
      ∃ p, (allocMtdRepeatAndDo dev len fd).2.getLast? = some p ∧ p.Complete len fd.position) := by
  have h := allocMtd_repeats dev len fd
  refine ⟨fun p hp => ?_, h.answered, h.begins, ?_, h.ret, h.succeeds⟩
  · have hbounded := h.bounded p hp
    have hone : p.loops * 1 ≤ p.loops * p.size :=
      Nat.mul_le_mul_left _ (Nat.lt_of_lt_of_le (by decide) hbounded.size_ge)
    have hfits := hbounded.fits
    exact ⟨hfits, by omega, hbounded.asked, hbounded.inOrder,
      fun t ht => ⟨hbounded.sized t ht, hbounded.within t ht⟩⟩
  · rcases h.ends with hnil | hpow
    · rw [hnil]
      exact Nat.zero_le _
    · have hlt := (Nat.pow_lt_pow_iff_right (a := 2) (by decide)).mp (hpow.trans_lt hlen)
      omega

/-- A device that has memory for 2048 bytes. -/
def smallDriver : Driver where
  io _ size := if size ≤ 2048 then .full else .failure true 0
  seek _ := true

/-- The pieces of the first pass are too large, those of the second are not. -/
theorem repeats_spec_second : ∃ p,
    (allocMtdRepeatAndDo smallDriver 8192 ⟨0, 0, false⟩).2.getLast? = some p ∧ p.Complete 8192 0 := by
  refine (repeats_spec smallDriver 8192 ⟨0, 0, false⟩ (by decide)).2.2.2.2.2.mp ?_
  simp [allocMtdRepeatAndDo, runPasses, runPass, minAllocSize, smallDriver]

end AndroidLearn.Mtd
