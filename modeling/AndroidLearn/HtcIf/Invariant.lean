import AndroidLearn.HtcIf.Forward
import Mathlib.Tactic.Common

/-!
# What holds while output is forwarded

The invariant of the threads of `htc_if.c`. `Inv` is kept by every step of the child, of
the waiting thread and of the forwarding thread. Each pipe's bytes are forwarded or still
in it, in order (`sent`); an index that is not -1 is that of the slot with the right
descriptor (`right`); a stream is given up only when it is at its end (`gone`). Behind the
exit code no more output can come, so what `poll` finds from then on is all there is
(`accurate`).

What `poll` has found may be old: it is about the moment of the look. `State.Accurate`
says what of it still holds when the slot has its turn.

`setupPollfds_spec` is what the setup of a cycle gives, for any set of indices that are
left, and `inv_init` the start.
-/

namespace AndroidLearn.HtcIf

/-! ## Messages -/

section Log

variable {f g : Fd} {log log' : List Msg} {data : List UInt8}

/-- What two logs forward, one after the other. -/
theorem forwarded_append : forwarded f (log ++ log') = forwarded f log ++ forwarded f log' := by
  induction log with
  | nil => rfl
  | cons m log ih => cases m <;> simp [forwarded, ih]

/-- What two logs reply, one after the other. -/
theorem codeReplies_append : codeReplies (log ++ log') = codeReplies log ++ codeReplies log' := by
  induction log with
  | nil => rfl
  | cons m log ih =>
    rcases m with ⟨f, data⟩ | -
    · cases f <;> simp [codeReplies, ih]
    · simp [codeReplies, ih]

@[simp] theorem forwarded_ack : forwarded f [.ack g data] = if g = f then data else [] := by
  simp [forwarded]

@[simp] theorem forwarded_exit : forwarded f [.exit] = [] := rfl

@[simp] theorem codeReplies_ack : codeReplies [.ack f data] = if f = .sta then [data] else [] := by
  cases f <;> simp [codeReplies]

@[simp] theorem codeReplies_exit : codeReplies [.exit] = [] := rfl

/-- What is forwarded of the status pipe are the replies. -/
theorem forwarded_sta : forwarded .sta log = (codeReplies log).flatten := by
  induction log with
  | nil => rfl
  | cons m log ih =>
    rcases m with ⟨f, data⟩ | -
    · cases f <;> simp [forwarded, codeReplies, ih]
    · simp [forwarded, codeReplies, ih]

end Log

/-! ## The slots -/

/-- The slots at the begin of a cycle: each index that is not -1 is that of the slot
with its descriptor, and every slot has an index. -/
structure SlotsRight (pollfds : List Slot) (idx : Idx) : Prop where
  right : ∀ f j, idx f = some j → (pollfds[j]?).map Slot.fd = some f
  owned : ∀ j slot, pollfds[j]? = some slot → idx slot.fd = some j

/-- The slots so far are right, for the descriptors `done`. -/
structure Setup (idx : Idx) (done : List Fd) (next : List Slot × Idx) : Prop where
  right : ∀ f ∈ done, ∀ j, next.2 f = some j → (next.1[j]?).map Slot.fd = some f
  owned : ∀ j slot, next.1[j]? = some slot → slot.fd ∈ done ∧ next.2 slot.fd = some j
  open_iff : ∀ f, next.2 f = none ↔ idx f = none
  length : next.1.length ≤ done.length
  empty : next.1 = [] → ∀ f ∈ done, idx f = none

/-- A slot is set up for one descriptor more. -/
theorem Setup.add {idx : Idx} {done : List Fd} {next : List Slot × Idx} (h : Setup idx done next)
    {f : Fd} (hf : f ∉ done) : Setup idx (done ++ [f]) (addSlot next f) := by
  unfold addSlot
  split
  next hopen =>
    refine ⟨?_, ?_, ?_, ?_, ?_⟩
    · intro g hg j hj
      dsimp only at hj ⊢
      rcases List.mem_append.mp hg with hg | hg
      · have hne : g ≠ f := fun heq => hf (heq ▸ hg)
        rw [Function.update_of_ne hne] at hj
        have hold := h.right g hg j hj
        have hlt : j < next.1.length := by
          by_contra hge
          rw [List.getElem?_eq_none (Nat.le_of_not_lt hge)] at hold
          simp at hold
        rw [List.getElem?_append_left hlt]
        exact hold
      · obtain rfl := List.mem_singleton.mp hg
        rw [Function.update_self] at hj
        obtain rfl := Option.some.inj hj
        simp
    · intro j slot hj
      dsimp only at hj ⊢
      rw [List.getElem?_append] at hj
      split at hj
      next hlt =>
        obtain ⟨hmem, hidx⟩ := h.owned j slot hj
        have hne : slot.fd ≠ f := fun heq => hf (heq ▸ hmem)
        exact ⟨List.mem_append_left _ hmem, by rw [Function.update_of_ne hne, hidx]⟩
      next hge =>
        obtain ⟨hzero, rfl⟩ : j - next.1.length = 0 ∧ (⟨f, ⟨false, false⟩⟩ : Slot) = slot := by
          rw [List.getElem?_eq_some_iff] at hj
          obtain ⟨hlt, heq⟩ := hj
          have hzero : j - next.1.length = 0 := by simpa using hlt
          exact ⟨hzero, by simpa using heq⟩
        have hlen : j = next.1.length := by omega
        exact ⟨by simp, by rw [Function.update_self, hlen]⟩
    · intro g
      dsimp only
      by_cases hg : g = f
      · subst hg
        rw [Function.update_self, ← h.open_iff]
        simp [hopen]
      · rw [Function.update_of_ne hg, h.open_iff]
    · simpa using h.length
    · intro hnil
      simp at hnil
  next hclosed =>
    rw [not_not] at hclosed
    refine ⟨?_, ?_, h.open_iff, ?_, ?_⟩
    · intro g hg j hj
      rcases List.mem_append.mp hg with hg | hg
      · exact h.right g hg j hj
      · obtain rfl := List.mem_singleton.mp hg
        rw [hclosed] at hj
        exact absurd hj (by simp)
    · intro j slot hj
      obtain ⟨hmem, hidx⟩ := h.owned j slot hj
      exact ⟨List.mem_append_left _ hmem, hidx⟩
    · rw [List.length_append]
      exact Nat.le_succ_of_le h.length
    · intro hnil g hg
      rcases List.mem_append.mp hg with hg | hg
      · exact h.empty hnil g hg
      · obtain rfl := List.mem_singleton.mp hg
        exact (h.open_iff g).mp hclosed

/-- The setup of a cycle keeps the open indices, and no others. -/
theorem setupPollfds_spec (idx : Idx) :
    SlotsRight (setupPollfds idx).1 (setupPollfds idx).2 ∧
      (∀ f, (setupPollfds idx).2 f = none ↔ idx f = none) ∧
      (setupPollfds idx).1.length ≤ 3 ∧
      ((setupPollfds idx).1 = [] → ∀ f, idx f = none) := by
  have hstart : Setup idx [] ([], idx) :=
    ⟨by simp, by simp, fun _ => Iff.rfl, Nat.le_refl _, by simp⟩
  have hall := ((hstart.add (f := .out) (by simp)).add (f := .err) (by simp)).add (f := .sta) (by simp)
  have hmem : ∀ f, f ∈ [] ++ [Fd.out] ++ [Fd.err] ++ [Fd.sta] := by
    intro f
    cases f <;> simp
  exact ⟨⟨fun f j => hall.right f (hmem f) j, fun j slot hj => (hall.owned j slot hj).2⟩,
    hall.open_iff, hall.length, fun hnil f => hall.empty hnil f (hmem f)⟩
/-- In the turn of a slot that has its index, the slot is taken for what it is. -/
theorem owner_eq {idx : Idx} {pollfds : List Slot} {i : Nat} {slot : Slot}
    (right : ∀ f j, idx f = some j → (pollfds[j]?).map Slot.fd = some f)
    (hslot : pollfds[i]? = some slot) (howned : idx slot.fd = some i) :
    owner idx i = some slot.fd := by
  have honly : ∀ f, idx f = some i → f = slot.fd := by
    intro f hf
    have h := right f i hf
    rw [hslot] at h
    simpa using h.symm
  unfold owner
  split
  next h => rw [honly _ h]
  next hout =>
    split
    next h => rw [honly _ h]
    next herr =>
      split
      next h => rw [honly _ h]
      next hsta => cases hfd : slot.fd <;> rw [hfd] at howned <;> contradiction

/-! ## The invariant -/

/-- The slots whose turn is still to come. -/
def Pc.turn : Pc → Nat
  | .slot i _ => i
  | _ => 0

/-- The slots whose `revents` were set in this cycle, and not used yet. -/
def Pc.reported (j : Nat) : Pc → Prop
  | .poll n => j < n
  | .slot i _ => i ≤ j
  | .done => False

/-- The state between the exit code's reply and the end: no output can come any more,
and what was not found is not there. -/
def State.Accurate (s : State) : Prop :=
  match s.pc with
  | .poll n => ∀ j slot, j < n → s.pollfds[j]? = some slot →
      slot.quiet = false ∧ (slot.revents.pollIn = false → (s.pipe slot.fd).buffer = [])
  | .slot i false => ∀ j slot, s.pollfds[j]? = some slot →
      (j < i ∨ slot.revents.pollIn = false) → (s.pipe slot.fd).buffer = []
  | _ => True

/-- The invariant: what was forwarded and what is in the pipe are what was written. -/
structure Inv (s : State) : Prop where
  sent : ∀ f, forwarded f s.log ++ (s.pipe f).buffer = (s.pipe f).written
  exitCloses : s.exited ≠ none → ∀ f, f ≠ .sta → (s.pipe f).closed = true
  staOpen : (s.pipe .sta).closed = false
  staWritten : (s.pipe .sta).written = [] ∨
    ∃ code, s.exited = some code ∧ (s.pipe .sta).written = codeBytes code
  unreplied : s.idx .sta ≠ none → codeReplies s.log = []
  replied : s.idx .sta = none →
    codeReplies s.log = [(s.pipe .sta).written] ∧ (s.pipe .sta).written ≠ []
  gone : ∀ f, f ≠ .sta → s.idx f = none → (s.pipe f).closed = true ∧ (s.pipe f).buffer = []
  right : ∀ f j, s.idx f = some j → (s.pollfds[j]?).map Slot.fd = some f
  owned : ∀ j slot, s.pollfds[j]? = some slot → s.pc.turn ≤ j → s.idx slot.fd = some j
  atMostThree : s.pollfds.length ≤ 3
  polled : ∀ n, s.pc = .poll n → s.pollfds ≠ []
  seenIn : ∀ j slot, s.pollfds[j]? = some slot → s.pc.reported j → slot.revents.pollIn = true →
    (s.pipe slot.fd).buffer ≠ [] ∨ (s.pipe slot.fd).closed = true
  seenHup : ∀ j slot, s.pollfds[j]? = some slot → s.pc.reported j → slot.revents.pollIn = false →
    slot.revents.pollHup = true → (s.pipe slot.fd).closed = true ∧ (s.pipe slot.fd).buffer = []
  accurate : s.idx .sta = none → s.Accurate
  late : ∀ i m j slot, s.pc = .slot i m → j < i → s.idx .sta = some j → s.pollfds[j]? = some slot →
    slot.revents.pollIn = false
  exitLast : if s.pc = .done then
      (∃ front, s.log = front ++ [.exit] ∧ .exit ∉ front) ∧ s.idx .sta = none ∧
        ∀ f, (s.pipe f).buffer = []
    else .exit ∉ s.log

/-- It holds before anything is written. -/
theorem inv_init : Inv .init where
  sent f := rfl
  exitCloses h := absurd rfl h
  staOpen := rfl
  staWritten := .inl rfl
  unreplied _ := rfl
  replied h := by simp [State.init] at h
  gone f _ h := by cases f <;> simp [State.init] at h
  right f j h := by cases f <;> obtain rfl := Option.some.inj h <;> rfl
  owned j slot h _ := by
    rcases j with - | - | - | j
    · obtain rfl := Option.some.inj h; rfl
    · obtain rfl := Option.some.inj h; rfl
    · obtain rfl := Option.some.inj h; rfl
    · simp [State.init] at h
  atMostThree := Nat.le_refl _
  polled _ _ := by simp [State.init]
  seenIn j slot _ h := absurd h (Nat.not_lt_zero _)
  seenHup j slot _ h := absurd h (Nat.not_lt_zero _)
  accurate h := by simp [State.init] at h
  late _ _ _ _ h := by simp [State.init] at h
  exitLast := by simp [State.init]

/-- Once the exit code was replied, both streams are closed. -/
theorem Inv.closed {s : State} (h : Inv s) (hsta : s.idx .sta = none) (f : Fd) (hf : f ≠ .sta) :
    (s.pipe f).closed = true := by
  have hexited : s.exited ≠ none := by
    rcases h.staWritten with hnil | ⟨code, hcode, -⟩
    · exact absurd hnil (h.replied hsta).2
    · rw [hcode]
      simp
  exact h.exitCloses hexited f hf

/-- The status pipe is empty once it was read. -/
theorem Inv.sta_empty {s : State} (h : Inv s) (hsta : s.idx .sta = none) :
    (s.pipe .sta).buffer = [] := by
  have hsent := h.sent .sta
  rw [forwarded_sta, (h.replied hsta).1] at hsent
  simpa using hsent

end AndroidLearn.HtcIf
