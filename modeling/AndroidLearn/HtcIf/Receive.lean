import AndroidLearn.Lib.Bytes

/-!
# Receiving a message

The loop of `handle_htc_if_fd` in `htc_if.c` that calls `recv` until the whole payload is
there. A return of 0 or less is an error unless `errno` is EAGAIN, and a return of 0, when
the peer has shut down, leaves `errno` as an earlier call has set it. So the loop goes
round for good when the last error in front of the shutdown was EAGAIN.

What the socket has to give is a list of outcomes (data, an error with its `errno`), and
what comes when they are used up: a shutdown, or an error that stays. A `recv` takes what
is there up to the length asked for. The loop is given fuel, one for each round, and does
not end if no amount of it is enough.

`Receives` says that the loop ends, and that a payload it comes back with has the length
that was asked for and is what has arrived first.

Theorem: `receives_iff` says for which lists of outcomes, which end and which `errno`
before the call it does. `receive_ends_iff` is the part on the end, by induction on the
outcomes.
-/

namespace AndroidLearn.HtcIf

def eintr : Nat := 4

def eagain : Nat := 11

/-- What one call of `recv` finds, before the end. -/
inductive Outcome
  /-- bytes that have arrived, at least one -/
  | data (first : UInt8) (more : Bytes)
  | wouldBlock
  | interrupted

/-- How the connection goes on behind the outcomes that are listed. -/
inductive Ending
  | shutdown
  | error (errno : {e : Nat // e ≠ eintr ∧ e ≠ eagain})
  deriving DecidableEq

/-- What `htc_if_receive` comes to. -/
inductive Result
  | running
  /-- the loop is left, with this in `pdata` -/
  | complete (pdata : Bytes)
  /-- the socket is closed and the message is dropped -/
  | failed

/-- Bytes that did not fit stay in the socket. -/
def unread : Bytes → List Outcome → List Outcome
  | [], outcomes => outcomes
  | b :: bs, outcomes => .data b bs :: outcomes

/-- `TEMP_FAILURE_RETRY (recv (commfd, .., len, 0))`: what is delivered, where `none` is a
return of -1, with `errno` and what is left to come. -/
def recvRetry (ending : Ending) (len errno : Nat) :
    List Outcome → Option Bytes × Nat × List Outcome
  | [] =>
    match ending with
    | .shutdown => (some [], errno, [])
    | .error e => (none, e, [])
  | .data b bs :: outcomes =>
    (some ((b :: bs).take len), errno, unread ((b :: bs).drop len) outcomes)
  | .wouldBlock :: outcomes => (none, eagain, outcomes)
  | .interrupted :: outcomes => recvRetry ending len eintr outcomes

/-- The loop of `handle_htc_if_fd`; `pdata` is what was received, `idx` its length. -/
def receive (ending : Ending) (datalen : Nat) :
    Nat → Bytes → Nat → List Outcome → Result
  | 0, _, _, _ => .running
  | fuel + 1, pdata, errno, outcomes =>
    if pdata.length < datalen then
      match recvRetry ending (datalen - pdata.length) errno outcomes with
      | (some (b :: bs), errno, outcomes) =>
        receive ending datalen fuel (pdata ++ b :: bs) errno outcomes
      -- `count <= 0`
      | (_, errno, outcomes) =>
        if errno = eagain then receive ending datalen fuel pdata errno outcomes else .failed
    else .complete pdata

/-- The bytes that arrive before the end. -/
def arriving : List Outcome → Bytes
  | [] => []
  | .data b bs :: outcomes => b :: bs ++ arriving outcomes
  | .wouldBlock :: outcomes => arriving outcomes
  | .interrupted :: outcomes => arriving outcomes

/-- `errno` after the outcomes. -/
def errnoAfter : Nat → List Outcome → Nat
  | errno, [] => errno
  | errno, .data _ _ :: outcomes => errnoAfter errno outcomes
  | _, .wouldBlock :: outcomes => errnoAfter eagain outcomes
  | _, .interrupted :: outcomes => errnoAfter eintr outcomes

/-- The loop ends, and a message that is reported is the first `datalen` bytes that arrive. -/
structure Receives (datalen errno : Nat) (outcomes : List Outcome) (ending : Ending) : Prop where
  ends : ∃ fuel, receive ending datalen fuel [] errno outcomes ≠ .running
  whole : ∀ fuel pdata, receive ending datalen fuel [] errno outcomes = .complete pdata →
    pdata.length = datalen ∧ pdata <+: arriving outcomes

/-! ## One call -/

/-- Bytes and calls that are left. -/
def pending : List Outcome → Nat
  | [] => 0
  | .data _ bs :: outcomes => bs.length + 1 + pending outcomes
  | .wouldBlock :: outcomes => 1 + pending outcomes
  | .interrupted :: outcomes => 1 + pending outcomes

theorem arriving_unread (bytes : Bytes) (outcomes : List Outcome) :
    arriving (unread bytes outcomes) = bytes ++ arriving outcomes := by
  cases bytes <;> rfl

theorem errnoAfter_unread (errno : Nat) (bytes : Bytes) (outcomes : List Outcome) :
    errnoAfter errno (unread bytes outcomes) = errnoAfter errno outcomes := by
  cases bytes <;> rfl

/-- Bytes that were put back are pending. -/
theorem pending_unread (bytes : Bytes) (outcomes : List Outcome) :
    pending (unread bytes outcomes) = bytes.length + pending outcomes := by
  cases bytes with
  | nil => exact (Nat.zero_add _).symm
  | cons b bs => rfl

/-- What is to come after a call is what was to come before it. -/
structure Follows (errno : Nat) (outcomes : List Outcome) (delivered : Bytes) (errno' : Nat)
    (outcomes' : List Outcome) : Prop where
  arriving : arriving outcomes = delivered ++ arriving outcomes'
  errno : errnoAfter errno outcomes = errnoAfter errno' outcomes'
  fewer : pending outcomes' < pending outcomes

/-- A call delivers bytes, or says that it would block, or comes to the end. -/
theorem recvRetry_cases (ending : Ending) {len : Nat} (errno : Nat) (outcomes : List Outcome)
    (hlen : 0 < len) :
    (∃ b bs errno' outcomes',
      recvRetry ending len errno outcomes = (some (b :: bs), errno', outcomes') ∧
        (b :: bs).length ≤ len ∧ Follows errno outcomes (b :: bs) errno' outcomes') ∨
    (∃ outcomes', recvRetry ending len errno outcomes = (none, eagain, outcomes') ∧
      Follows errno outcomes [] eagain outcomes') ∨
    (arriving outcomes = [] ∧
      recvRetry ending len errno outcomes = recvRetry ending len (errnoAfter errno outcomes) []) := by
  induction outcomes generalizing errno with
  | nil => exact .inr (.inr ⟨rfl, rfl⟩)
  | cons outcome outcomes ih =>
    cases outcome with
    | data b bs =>
      obtain ⟨n, rfl⟩ := Nat.exists_eq_succ_of_ne_zero hlen.ne'
      refine .inl ⟨b, bs.take n, errno, unread (bs.drop n) outcomes, rfl, ?_, ?_, ?_, ?_⟩
      · rw [List.length_cons, List.length_take]
        omega
      · rw [arriving_unread, List.cons_append, ← List.append_assoc, List.take_append_drop]
        rfl
      · rw [errnoAfter_unread]
        rfl
      · rw [pending_unread, List.length_drop]
        show _ < bs.length + 1 + _
        omega
    | wouldBlock =>
      refine .inr (.inl ⟨outcomes, rfl, rfl, rfl, ?_⟩)
      show _ < 1 + _
      omega
    | interrupted =>
      rcases ih eintr with ⟨b, bs, errno', outcomes', he, hle, hf⟩ | ⟨outcomes', he, hf⟩ | h
      · refine .inl ⟨b, bs, errno', outcomes', he, hle, hf.arriving, hf.errno, ?_⟩
        exact Nat.lt_of_lt_of_le hf.fewer (Nat.le_add_left _ _)
      · refine .inr (.inl ⟨outcomes', he, hf.arriving, hf.errno, ?_⟩)
        exact Nat.lt_of_lt_of_le hf.fewer (Nat.le_add_left _ _)
      · exact .inr (.inr h)

/-! ## The loop -/

variable {ending : Ending} {datalen errno errno' : Nat} {pdata : Bytes}
  {outcomes outcomes' : List Outcome}

theorem receive_complete (h : datalen ≤ pdata.length) (fuel : Nat) :
    receive ending datalen (fuel + 1) pdata errno outcomes = .complete pdata := by
  rw [receive, if_neg (by omega)]

/-- A round that receives something. -/
theorem receive_data {b : UInt8} {bs : Bytes} (h : pdata.length < datalen)
    (he : recvRetry ending (datalen - pdata.length) errno outcomes =
      (some (b :: bs), errno', outcomes')) (fuel : Nat) :
    receive ending datalen (fuel + 1) pdata errno outcomes =
      receive ending datalen fuel (pdata ++ b :: bs) errno' outcomes' := by
  rw [receive, if_pos h, he]

/-- A round that receives nothing, and goes round again. -/
theorem receive_wouldBlock (h : pdata.length < datalen)
    (he : recvRetry ending (datalen - pdata.length) errno outcomes = (none, eagain, outcomes'))
    (fuel : Nat) : receive ending datalen (fuel + 1) pdata errno outcomes =
      receive ending datalen fuel pdata eagain outcomes' := by
  rw [receive, if_pos h, he]
  exact if_pos rfl

/-- At the end the loop fails, or `errno` lets it go on as before. -/
theorem receive_end (h : pdata.length < datalen)
    (he : recvRetry ending (datalen - pdata.length) errno outcomes =
      recvRetry ending (datalen - pdata.length) errno' []) (fuel : Nat) :
    receive ending datalen (fuel + 1) pdata errno outcomes =
      if ending = .shutdown ∧ errno' = eagain then receive ending datalen fuel pdata errno' []
      else .failed := by
  rw [receive, if_pos h, he]
  cases ending with
  | shutdown =>
    show (if errno' = eagain then _ else _) = _
    simp only [true_and]
  | error e =>
    rw [if_neg (by simp)]
    exact if_neg e.property.2

/-- A peer that has shut down, with `errno` still EAGAIN, is asked again and again. -/
theorem receive_spins (h : pdata.length < datalen) (fuel : Nat) :
    receive .shutdown datalen fuel pdata eagain [] = .running := by
  induction fuel with
  | zero => rfl
  | succ fuel ih => rw [receive_end h rfl, if_pos ⟨rfl, rfl⟩, ih]

/-- A message that is received is whole, and made of the bytes that arrived. -/
theorem receive_whole {result : Bytes} (hlen : pdata.length ≤ datalen) {fuel : Nat}
    (h : receive ending datalen fuel pdata errno outcomes = .complete result) :
    result.length = datalen ∧ result <+: pdata ++ arriving outcomes := by
  induction fuel generalizing pdata errno outcomes with
  | zero => cases h
  | succ fuel ih =>
    rcases Nat.lt_or_ge pdata.length datalen with hlt | hge
    · rcases recvRetry_cases ending errno outcomes (Nat.sub_pos_of_lt hlt) with
        ⟨b, bs, errno', outcomes', he, hle, hf⟩ | ⟨outcomes', he, hf⟩ | ⟨hnone, he⟩
      · rw [receive_data hlt he] at h
        rw [hf.arriving, ← List.append_assoc]
        exact ih (by rw [List.length_append]; omega) h
      · rw [receive_wouldBlock hlt he] at h
        rw [hf.arriving]
        exact ih hlen h
      · rw [receive_end hlt he] at h
        split_ifs at h with hspin
        rw [hspin.1, hspin.2, receive_spins hlt] at h
        cases h
    · rw [receive_complete hge] at h
      cases h
      exact ⟨by omega, List.prefix_append _ _⟩

/-- The loop ends with some fuel if it does with more. -/
theorem exists_fuel {f : Nat → Result} (h : f 0 = .running) :
    (∃ fuel, f fuel ≠ .running) ↔ ∃ fuel, f (fuel + 1) ≠ .running := by
  constructor
  · rintro ⟨fuel, hfuel⟩
    cases fuel with
    | zero => exact (hfuel h).elim
    | succ fuel => exact ⟨fuel, hfuel⟩
  · rintro ⟨fuel, hfuel⟩
    exact ⟨fuel + 1, hfuel⟩

/-- Enough bytes arrive, or the end is an error, or `errno` is not EAGAIN at the end. -/
def Terminates (missing errno : Nat) (outcomes : List Outcome) (ending : Ending) : Prop :=
  missing ≤ (arriving outcomes).length ∨ ending ≠ .shutdown ∨ errnoAfter errno outcomes ≠ eagain

/-- When the loop comes to an end. -/
theorem receive_ends_iff (hlen : pdata.length ≤ datalen) :
    (∃ fuel, receive ending datalen fuel pdata errno outcomes ≠ .running) ↔
      Terminates (datalen - pdata.length) errno outcomes ending := by
  induction hp : pending outcomes using Nat.strong_induction_on
    generalizing pdata errno outcomes with
  | _ n ih =>
    rw [exists_fuel rfl]
    rcases Nat.lt_or_ge pdata.length datalen with hlt | hge
    · rcases recvRetry_cases ending errno outcomes (Nat.sub_pos_of_lt hlt) with
        ⟨b, bs, errno', outcomes', he, hle, hf⟩ | ⟨outcomes', he, hf⟩ | ⟨hnone, he⟩
      · simp only [receive_data hlt he]
        have hlen' : (pdata ++ b :: bs).length ≤ datalen := by rw [List.length_append]; omega
        rw [ih _ (hp ▸ hf.fewer) hlen' rfl]
        unfold Terminates
        rw [hf.arriving, hf.errno, List.length_append, List.length_append]
        apply or_congr_left
        omega
      · simp only [receive_wouldBlock hlt he]
        rw [ih _ (hp ▸ hf.fewer) hlen rfl]
        unfold Terminates
        rw [hf.arriving, hf.errno, List.nil_append]
      · simp only [receive_end hlt he]
        unfold Terminates
        rw [hnone, List.length_nil]
        by_cases hspin : ending = .shutdown ∧ errnoAfter errno outcomes = eagain
        · simp only [if_pos hspin]
          rw [hspin.1, hspin.2]
          constructor
          · rintro ⟨fuel, hfuel⟩
            exact (hfuel (receive_spins hlt fuel)).elim
          · rintro (hle | hne | hne)
            · omega
            · exact (hne rfl).elim
            · exact (hne rfl).elim
        · simp only [if_neg hspin]
          exact ⟨fun _ => .inr (not_and_or.mp hspin), fun _ => ⟨0, Result.noConfusion⟩⟩
    · simp only [receive_complete hge]
      exact ⟨fun _ => .inl (by omega), fun _ => ⟨0, Result.noConfusion⟩⟩

/-- The loop does what it should exactly if it ends. -/
theorem receives_iff (datalen errno : Nat) (outcomes : List Outcome) (ending : Ending) :
    Receives datalen errno outcomes ending ↔
      datalen ≤ (arriving outcomes).length ∨ ending ≠ .shutdown ∨
        errnoAfter errno outcomes ≠ eagain := by
  have hends : (∃ fuel, receive ending datalen fuel [] errno outcomes ≠ .running) ↔
      Terminates datalen errno outcomes ending := receive_ends_iff (Nat.zero_le datalen)
  constructor
  · intro h
    exact hends.mp h.ends
  · intro h
    refine ⟨hends.mpr h, ?_⟩
    intro fuel pdata hc
    have hempty : ([] : Bytes).length ≤ datalen := Nat.zero_le datalen
    exact receive_whole hempty hc

/-- The peer sends one of two bytes, the next call would block, and then the peer shuts down. -/
theorem receives_fails_shutdown : ¬ Receives 2 0 [.data 97 [], .wouldBlock] .shutdown := by
  intro h
  obtain ⟨fuel, hfuel⟩ := h.ends
  apply hfuel
  match fuel with
  | 0 => rfl
  | 1 => rfl
  | n + 2 => exact receive_spins (by decide : [(97 : UInt8)].length < 2) n

end AndroidLearn.HtcIf
