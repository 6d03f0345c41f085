import Mathlib.Data.List.Nodup

/-!
# Following a partial function

`next a` is where one goes from `a`; where it is `none`, one stays. `ahead next n a` is
the place after `n` steps, and `follow` goes on until it has to stay, in a number of
rounds.

To come to an end (`EndsAt`) is to reach a place where one stays; to go nowhere twice
(`Once`) is about all places on the way.

Among finitely many places one comes to an end exactly if none is met twice: what ends has
met none twice, since `next` is a function (`once_of_endsAt`), and what meets none twice
runs out of places (`ahead_none_of_once`). `follow` then needs no more rounds than there
are places (`follow_of_once`).
-/

namespace AndroidLearn.Follow

variable {α : Type} {next : α → Option α} {a b c : α} {n m : Nat}

/-- `n` steps ahead, if there are so many. -/
def ahead (next : α → Option α) : Nat → α → Option α
  | 0, a => some a
  | n + 1, a => (next a).bind (ahead next n)

/-- As far as the steps go. -/
def follow (next : α → Option α) : Nat → α → Option α
  | 0, _ => none
  | fuel + 1, a =>
    match next a with
    | none => some a
    | some b => follow next fuel b

/-- The first place, from `a` on, where one stays. -/
def EndsAt (next : α → Option α) (a b : α) : Prop :=
  (∃ n, ahead next n a = some b) ∧ next b = none

/-- No place is met twice. -/
def Once (next : α → Option α) (a : α) : Prop :=
  ∀ i j b, i < j → ahead next i a = some b → ahead next j a ≠ some b

theorem ahead_add (n m : Nat) (a : α) :
    ahead next (n + m) a = (ahead next n a).bind (ahead next m) := by
  induction n generalizing a with
  | zero => rw [Nat.zero_add]; rfl
  | succ n ih =>
    rw [Nat.add_right_comm]
    show (next a).bind (ahead next (n + m)) = ((next a).bind (ahead next n)).bind (ahead next m)
    rw [Option.bind_assoc]
    exact congrArg _ (funext ih)

/-- One step more. -/
theorem ahead_succ (n : Nat) (a : α) : ahead next (n + 1) a = (ahead next n a).bind next := by
  rw [ahead_add n 1 a]
  congr 1
  funext b
  show (next b).bind some = next b
  cases next b <;> rfl

/-- Behind the end there is nothing. -/
theorem ahead_none_of_le (h : ahead next n a = none) (hle : n ≤ m) : ahead next m a = none := by
  obtain ⟨k, rfl⟩ := Nat.exists_eq_add_of_le hle
  rw [ahead_add, h]
  rfl

/-- What `follow` returns is the place where one stays. -/
theorem follow_eq_some_iff {fuel : Nat} :
    follow next fuel a = some b ↔ ∃ n < fuel, ahead next n a = some b ∧ next b = none := by
  induction fuel generalizing a with
  | zero =>
    refine iff_of_false (Option.some_ne_none b).symm ?_
    rintro ⟨n, hn, -⟩
    exact Nat.not_lt_zero n hn
  | succ fuel ih =>
    unfold follow
    cases hnext : next a with
    | none =>
      constructor
      · intro h
        obtain rfl := Option.some.inj h
        exact ⟨0, Nat.succ_pos fuel, rfl, hnext⟩
      · rintro ⟨n, -, hahead, -⟩
        cases n with
        | zero => exact hahead
        | succ n =>
          rw [ahead, hnext] at hahead
          cases hahead
    | some d =>
      show follow next fuel d = some b ↔ _
      rw [ih]
      constructor
      · rintro ⟨n, hn, hahead, hstay⟩
        refine ⟨n + 1, Nat.succ_lt_succ hn, ?_, hstay⟩
        rw [ahead, hnext]
        exact hahead
      · rintro ⟨n, hn, hahead, hstay⟩
        cases n with
        | zero =>
          obtain rfl := Option.some.inj hahead
          rw [hnext] at hstay
          cases hstay
        | succ n =>
          rw [ahead, hnext] at hahead
          exact ⟨n, Nat.lt_of_succ_lt_succ hn, hahead, hstay⟩

theorem endsAt_of_follow {fuel : Nat} (h : follow next fuel a = some b) : EndsAt next a b := by
  obtain ⟨n, -, hahead, hstay⟩ := follow_eq_some_iff.mp h
  exact ⟨⟨n, hahead⟩, hstay⟩

/-- From a place that is met again one never comes to an end. -/
theorem once_of_endsAt (h : EndsAt next a b) : Once next a := by
  obtain ⟨⟨n, hahead⟩, hstay⟩ := h
  have hend : ahead next (n + 1) a = none := by
    rw [ahead_succ, hahead]
    exact hstay
  intro i j c hij hi hj
  have hloop : ahead next (j - i) c = some c := by
    rw [← hj, ← Nat.add_sub_cancel' (Nat.le_of_lt hij), ahead_add, hi, Nat.add_sub_cancel_left]
    rfl
  have hrounds (k : Nat) : ahead next (i + k * (j - i)) a = some c := by
    induction k with
    | zero => rw [Nat.zero_mul, Nat.add_zero, hi]
    | succ k ih => rw [Nat.succ_mul, ← Nat.add_assoc, ahead_add, ih, Option.bind_some, hloop]
  have hfar : n + 1 ≤ i + (n + 1) * (j - i) := by
    have hmul := Nat.le_mul_of_pos_right (n + 1) (Nat.sub_pos_of_lt hij)
    omega
  have hnone := ahead_none_of_le hend hfar
  rw [hrounds] at hnone
  cases hnone

/-- Where nothing is met twice, there are only as many steps as there are places. -/
theorem ahead_none_of_once {places : List α} (hplaces : ∀ a b, next a = some b → b ∈ places)
    (h : Once next a) : ahead next (places.length + 1) a = none := by
  by_contra hsome
  have hall (i : Nat) (hi : i ≤ places.length) : ∃ b ∈ places, ahead next (i + 1) a = some b := by
    cases hahead : ahead next (i + 1) a with
    | none => exact absurd (ahead_none_of_le hahead (Nat.succ_le_succ hi)) hsome
    | some b =>
      obtain ⟨c, -, hnext⟩ := Option.bind_eq_some_iff.mp ((ahead_succ i a).symm.trans hahead)
      exact ⟨b, hplaces c b hnext, rfl⟩
  -- one place for each step, all different
  have hnodup : ((List.range (places.length + 1)).map fun i => ahead next (i + 1) a).Nodup := by
    refine List.Nodup.map_on (fun i hi j hj heq => ?_) List.nodup_range
    obtain ⟨b, -, hb⟩ := hall i (Nat.lt_succ_iff.mp (List.mem_range.mp hi))
    rcases Nat.lt_trichotomy i j with hlt | hij | hlt
    · exact absurd (heq.symm.trans hb) (h _ _ b (Nat.succ_lt_succ hlt) hb)
    · exact hij
    · exact absurd hb (h _ _ b (Nat.succ_lt_succ hlt) (heq.symm.trans hb))
  have hsubset : ((List.range (places.length + 1)).map fun i => ahead next (i + 1) a) ⊆
      places.map some := by
    intro o ho
    obtain ⟨i, hi, rfl⟩ := List.mem_map.mp ho
    obtain ⟨b, hmem, hb⟩ := hall i (Nat.lt_succ_iff.mp (List.mem_range.mp hi))
    exact List.mem_map.mpr ⟨b, hmem, hb.symm⟩
  have hle := hnodup.length_le_of_subset hsubset
  rw [List.length_map, List.length_map, List.length_range] at hle
  omega

/-- A walk with an end comes to it. -/
theorem endsAt_of_ahead_none (h : ahead next n a = none) :
    ∃ m < n, ∃ b, ahead next m a = some b ∧ next b = none := by
  induction n with
  | zero => cases h
  | succ n ih =>
    cases hahead : ahead next n a with
    | none =>
      obtain ⟨m, hm, hb⟩ := ih hahead
      exact ⟨m, Nat.lt_succ_of_lt hm, hb⟩
    | some b =>
      rw [ahead_succ, hahead] at h
      exact ⟨n, Nat.lt_succ_self n, b, hahead, h⟩

/-- With enough fuel, `follow` returns if no place is met twice. -/
theorem follow_of_once {places : List α} (hplaces : ∀ a b, next a = some b → b ∈ places)
    (h : Once next a) :
    ∃ b, EndsAt next a b ∧ ∀ fuel, places.length < fuel → follow next fuel a = some b := by
  obtain ⟨m, hm, b, hahead, hstay⟩ := endsAt_of_ahead_none (ahead_none_of_once hplaces h)
  exact ⟨b, ⟨⟨m, hahead⟩, hstay⟩, fun fuel hfuel =>
    follow_eq_some_iff.mpr ⟨m, by omega, hahead, hstay⟩⟩

end AndroidLearn.Follow
