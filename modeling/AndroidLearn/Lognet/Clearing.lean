import AndroidLearn.Lognet.Sessions
import Mathlib.Data.UInt

/-!
# What a clearing takes from the table

`thread_autoclear` of `lognet.c`, with `count_total_size_nolock`. The clearing thread goes
through `sessions` with a pointer, counts `session_count` down, and then moves what is
left to the front in one go. `threadAutoclear` does it on the array, and
`threadAutoclear_eq` says that it is the split of `clearBySize`, which `Sessions` has.

The sizes of the logs are given, a `UInt64` for each session; so are the limit and the
space that is to be free. `data_lock` is held all the time.

What is removed is always a front of the table, never the newest session, and never more
than needed. It may be less: the total is an `unsigned long long`, and sizes that are 2^64
together look like little (`clears_fails_huge`).

Theorem: `clears_iff`, for every table, limit and sizes. A clearing does what it should
exactly if the counted sizes are small (`SmallSizes`), and those that add up to less than
2^64 are.
-/

namespace AndroidLearn.Lognet

/-- `sessions` and `session_count`, as `read_timestampes_nolock` leaves them. -/
structure Table where
  sessions : List LogSession
  count : Nat
  length : sessions.length = sessionCount
  fits : count ≤ sessionCount

/-- The records in use. -/
def Table.records (t : Table) : List LogSession := t.sessions.take t.count

/-- `count_total_size_nolock`, on the array -/
def countTable (count : LogSession → UInt64) (t : Table) : List LogSession :=
  countSizes count t.records ++ t.sessions.drop t.count

/-- The loop: `session_count` and `pls - sessions` behind it, and the sessions whose logs were
unlinked. -/
def clearLoop (freeSize : UInt64) (sessions : List LogSession) :
    Nat → Nat → UInt64 → Option (Nat × Nat × List LogSession)
  | sessionCount + 2, pls, totalSize =>
    if freeSize < totalSize then
      match sessions[pls]? with
      | none => none
      | some session =>
        let totalSize := totalSize - (if session.size < totalSize then session.size else totalSize)
        (clearLoop freeSize sessions (sessionCount + 1) (pls + 1) totalSize).map
          fun (count, pls, unlinked) => (count, pls, session :: unlinked)
    else some (sessionCount + 2, pls, [])
  | sessionCount, pls, _ => some (sessionCount, pls, [])

/-- `memmove (sessions, pls, session_count * sizeof (LOG_SESSION))` -/
def moveSessions (sessions : List LogSession) (pls count : Nat) : Option (List LogSession) :=
  if pls + count ≤ sessions.length then some ((sessions.drop pls).take count ++ sessions.drop count)
  else none

/-- What a clearing did. -/
structure Clearing where
  unlinked : List LogSession
  sessions : List LogSession
  count : Nat
  /-- what `write_timestampes_nolock` writes -/
  file : List LogSession

/-- `thread_autoclear`, behind `read_timestampes_nolock`; without a result it is outside of the
array. -/
def threadAutoclear (count : LogSession → UInt64) (logLimit : Int) (t : Table) : Option Clearing :=
  let sessions := countTable count t
  let totalSize := totalSize (sessions.take t.count)
  let cleared :=
    if freeSize logLimit < totalSize then
      (clearLoop (freeSize logLimit) sessions t.count 0 totalSize).bind fun (count, pls, unlinked) =>
        -- `processed` is how far `pls` has come
        if pls ≠ 0 then (moveSessions sessions pls count).map fun moved => (unlinked, moved, count)
        else some (unlinked, sessions, count)
    else some ([], sessions, t.count)
  cleared.map fun (unlinked, sessions, count) => ⟨unlinked, sessions, count, sessions.take count⟩

/-- The sizes of sessions together, as a number. -/
def sizes (sessions : List LogSession) : Nat := (sessions.map fun pls => pls.size.toNat).sum

/-- What a clearing should do; the sizes are those that are counted for it. -/
structure Clears (count : LogSession → UInt64) (logLimit : Int) (t : Table) (c : Clearing) :
    Prop where
  oldest : c.unlinked ++ c.sessions.take c.count = countSizes count t.records
  newest : t.records ≠ [] → 0 < c.count
  table : (c.sessions.take c.count).length = c.count
  file : c.file = c.sessions.take c.count
  within : sizes (c.sessions.take c.count) ≤ (freeSize logLimit).toNat ∨ c.count = 1
  needed : ∀ k < c.unlinked.length,
    (freeSize logLimit).toNat < sizes ((countSizes count t.records).drop k)

/-- The sizes are less than 2^64 together; or less than twice that, and those of the last two
sessions alone are above 2^64 and the limit, so that all but the newest have to go. -/
def SmallSizes (freeSize : UInt64) (counted : List LogSession) : Prop :=
  sizes counted < 2 ^ 64 ∨ sizes counted < 2 ^ 65 ∧
    2 ^ 64 + freeSize.toNat < sizes (counted.drop (counted.length - 2))

instance (freeSize : UInt64) (counted : List LogSession) : Decidable (SmallSizes freeSize counted) :=
  inferInstanceAs (Decidable (_ ∨ _))

/-! ## The array and the list -/

theorem length_countSizes (count : LogSession → UInt64) (sessions : List LogSession) :
    (countSizes count sessions).length = sessions.length := by
  have h := congrArg List.length
    (countSizes_map count (f := LogSession.record) (fun _ _ => rfl) sessions)
  rwa [List.length_map, List.length_map] at h

/-- The loop takes what `clearBySize` takes of the list in the array. -/
theorem clearLoop_eq (freeSize totalSize : UInt64) (front l back : List LogSession) :
    clearLoop freeSize (front ++ l ++ back) l.length front.length totalSize =
      some ((clearBySize freeSize totalSize l).2.length,
        front.length + (clearBySize freeSize totalSize l).1.length,
        (clearBySize freeSize totalSize l).1) := by
  induction totalSize, l using clearBySize.induct freeSize generalizing front with
  | case1 total pls next rest hlt total' unlinked left heq ih =>
    have hpls : (front ++ (pls :: next :: rest) ++ back)[front.length]? = some pls := by
      rw [List.append_assoc, List.getElem?_append_right (Nat.le_refl _), Nat.sub_self]
      rfl
    have hstep := ih (front ++ [pls])
    rw [List.append_assoc front, List.singleton_append, List.length_append] at hstep
    rw [List.length_cons, List.length_cons, clearLoop, if_pos hlt, hpls, clearBySize, if_pos hlt]
    show Option.map _ (clearLoop freeSize _ (next :: rest).length (front.length + [pls].length)
      total') = _
    rw [hstep, Option.map_some, Nat.add_assoc, List.length_singleton, Nat.add_comm 1]
    rfl
  | case2 total pls next rest hle =>
    rw [List.length_cons, List.length_cons, clearLoop, if_neg hle, clearBySize, if_neg hle]
    rfl
  | case3 total l hshort =>
    cases l with
    | nil => rfl
    | cons pls rest =>
      cases rest with
      | nil => rfl
      | cons next rest => exact (hshort pls next rest rfl).elim

/-- Where there is room nothing is cleared. -/
theorem clearBySize_of_le {freeSize totalSize : UInt64} (h : ¬ freeSize < totalSize)
    (l : List LogSession) : clearBySize freeSize totalSize l = ([], l) := by
  match l with
  | [] => rfl
  | [pls] => rfl
  | pls :: next :: rest => exact if_neg h

theorem length_countTable (count : LogSession → UInt64) (t : Table) :
    (countSizes count t.records).length = t.count ∧ (countTable count t).length = sessionCount := by
  have hlen : (countSizes count t.records).length = t.count := by
    rw [length_countSizes, Table.records, List.length_take, t.length, Nat.min_eq_left t.fits]
  refine ⟨hlen, ?_⟩
  rw [countTable, List.length_append, hlen, List.length_drop, t.length]
  have := t.fits
  omega

/-- The move leaves at the front what is behind the sessions that are gone. -/
theorem moveSessions_append (unlinked left back : List LogSession) :
    moveSessions (unlinked ++ left ++ back) unlinked.length left.length =
      some (left ++ (unlinked ++ left ++ back).drop left.length) := by
  rw [moveSessions, if_pos]
  · rw [List.append_assoc unlinked, List.drop_left, List.take_left]
  · rw [List.length_append, List.length_append]
    omega

/-- The loop on the array of a table, from its front. -/
theorem clearLoop_table (freeSize : UInt64) (count : LogSession → UInt64) (t : Table)
    {unlinked left : List LogSession}
    (hclear : clearBySize freeSize (totalSize (countSizes count t.records))
      (countSizes count t.records) = (unlinked, left)) :
    countTable count t = unlinked ++ left ++ t.sessions.drop t.count ∧
      clearLoop freeSize (countTable count t) t.count 0 (totalSize (countSizes count t.records)) =
        some (left.length, unlinked.length, unlinked) := by
  have hloop := clearLoop_eq freeSize (totalSize (countSizes count t.records)) []
    (countSizes count t.records) (t.sessions.drop t.count)
  have happend := clearBySize_append freeSize (totalSize (countSizes count t.records))
    (countSizes count t.records)
  rw [hclear] at hloop happend
  dsimp only at hloop happend
  rw [List.nil_append, (length_countTable count t).1, List.length_nil, Nat.zero_add] at hloop
  exact ⟨by rw [happend, countTable], hloop⟩

/-- The count, the move and the file agree. -/
theorem threadAutoclear_eq (count : LogSession → UInt64) (logLimit : Int) (t : Table) :
    ∃ c, threadAutoclear count logLimit t = some c ∧
      c.sessions.length = sessionCount ∧ c.file = c.sessions.take c.count ∧
      c.count = c.file.length ∧
      clearBySize (freeSize logLimit) (totalSize (countSizes count t.records))
        (countSizes count t.records) = (c.unlinked, c.file) := by
  obtain ⟨hlen, htable⟩ := length_countTable count t
  have htake : (countTable count t).take t.count = countSizes count t.records := by
    rw [countTable, List.take_left' hlen]
  unfold threadAutoclear
  dsimp only
  rw [htake]
  split_ifs with hover
  · obtain ⟨⟨unlinked, left⟩, hclear⟩ : ∃ split, clearBySize (freeSize logLimit)
        (totalSize (countSizes count t.records)) (countSizes count t.records) = split := ⟨_, rfl⟩
    obtain ⟨hsplit, hloop⟩ := clearLoop_table (freeSize logLimit) count t hclear
    rw [hloop, Option.bind_some, hclear]
    dsimp only
    have hleft : left.length ≤ sessionCount := by
      rw [hsplit, List.length_append, List.length_append] at htable
      omega
    split_ifs with hgone
    · rw [hsplit, moveSessions_append, ← hsplit]
      refine ⟨_, rfl, ?_, rfl, ?_, ?_⟩
      · rw [List.length_append, List.length_drop, htable]
        omega
      · exact (congrArg List.length (List.take_left)).symm
      · exact congrArg (Prod.mk unlinked) List.take_left.symm
    · have hnone : unlinked = [] := List.eq_nil_of_length_eq_zero (not_not.mp hgone)
      subst hnone
      have hfile : (countTable count t).take left.length = left := by
        rw [hsplit, List.nil_append, List.take_left]
      refine ⟨_, rfl, htable, rfl, ?_, ?_⟩
      · exact (congrArg List.length hfile).symm
      · exact congrArg (Prod.mk []) hfile.symm
  · refine ⟨_, rfl, htable, rfl, ?_, ?_⟩
    · rw [List.length_take, htable, Nat.min_eq_left t.fits]
    · rw [clearBySize_of_le hover]
      exact congrArg (Prod.mk []) htake.symm

/-! ## The total -/

@[simp] theorem sizes_nil : sizes [] = 0 := rfl

@[simp] theorem sizes_cons (pls : LogSession) (l : List LogSession) :
    sizes (pls :: l) = pls.size.toNat + sizes l := rfl

/-- The sum of the sizes, as it wraps around. -/
theorem toNat_foldl_size (l : List LogSession) (total : UInt64) :
    (l.foldl (fun size pls => size + pls.size) total).toNat = (total.toNat + sizes l) % 2 ^ 64 := by
  induction l generalizing total with
  | nil => exact (Nat.mod_eq_of_lt total.toNat_lt).symm
  | cons pls l ih =>
    rw [List.foldl_cons, ih, UInt64.toNat_add, Nat.mod_add_mod, sizes_cons, Nat.add_assoc]

theorem toNat_totalSize (l : List LogSession) : (totalSize l).toNat = sizes l % 2 ^ 64 := by
  rw [totalSize, toNat_foldl_size]
  simp

/-- What is left takes no more room. -/
theorem sizes_drop_le (l : List LogSession) (k : Nat) : sizes (l.drop k) ≤ sizes l := by
  induction l generalizing k with
  | nil => simp
  | cons pls l ih =>
    cases k with
    | zero => exact Nat.le_refl _
    | succ k =>
      have := ih k
      rw [List.drop_succ_cons, sizes_cons]
      omega

/-- One record less. -/
theorem sizes_drop_succ {l : List LogSession} {k : Nat} (h : k < l.length) :
    ∃ pls ∈ l, sizes (l.drop k) = pls.size.toNat + sizes (l.drop (k + 1)) := by
  refine ⟨l[k], List.getElem_mem h, ?_⟩
  rw [List.drop_eq_getElem_cons h, sizes_cons]

/-- The subtraction of the source does not go below zero. -/
theorem toNat_subtract (total size : UInt64) :
    (total - (if size < total then size else total)).toNat = total.toNat - size.toNat := by
  split_ifs with hlt
  · exact UInt64.toNat_sub_of_le _ _ (UInt64.le_of_lt hlt)
  · have hle : total.toNat ≤ size.toNat := UInt64.le_iff_toNat_le.mp (UInt64.not_lt.mp hlt)
    rw [UInt64.sub_self, UInt64.toNat_zero]
    omega

/-- Where there is no room the oldest session is cleared. -/
theorem clearBySize_of_lt {freeSize total : UInt64} (h : freeSize < total) (pls next : LogSession)
    (rest : List LogSession) : ∃ total', total'.toNat = total.toNat - pls.size.toNat ∧
      clearBySize freeSize total (pls :: next :: rest) =
        (pls :: (clearBySize freeSize total' (next :: rest)).1,
          (clearBySize freeSize total' (next :: rest)).2) := by
  refine ⟨_, toNat_subtract total pls.size, ?_⟩
  rw [clearBySize, if_pos h]

/-- How far the loop goes: what is behind it is within the limit by its own total, or is one
session, and in front of that it never was. -/
theorem clearBySize_spec (freeSize total : UInt64) (l : List LogSession) :
    (total.toNat + sizes (l.drop (clearBySize freeSize total l).1.length) ≤
        freeSize.toNat + sizes l ∨ (clearBySize freeSize total l).2.length ≤ 1) ∧
    (l ≠ [] → 0 < (clearBySize freeSize total l).2.length) ∧
    ∀ k < (clearBySize freeSize total l).1.length,
      freeSize.toNat + sizes l < total.toNat + sizes (l.drop k) := by
  induction l generalizing total with
  | nil =>
    rw [clearBySize.eq_def]
    exact ⟨.inr (Nat.zero_le 1), fun h => (h rfl).elim, fun k hk => absurd hk k.not_lt_zero⟩
  | cons pls l ih =>
    by_cases hlt : freeSize < total
    · cases l with
      | nil =>
        rw [clearBySize.eq_def]
        exact ⟨.inr (Nat.le_refl 1), fun _ => Nat.one_pos, fun k hk => absurd hk k.not_lt_zero⟩
      | cons next rest =>
        obtain ⟨total', htotal, hstep⟩ := clearBySize_of_lt hlt pls next rest
        obtain ⟨hend, hkept, hneeded⟩ := ih total'
        rw [hstep]
        refine ⟨?_, fun _ => hkept (List.cons_ne_nil next rest), ?_⟩
        · rw [List.length_cons, List.drop_succ_cons, sizes_cons pls]
          apply hend.imp_left
          intro hle
          omega
        · intro k hk
          cases k with
          | zero =>
            have := UInt64.lt_iff_toNat_lt.mp hlt
            rw [List.drop_zero]
            omega
          | succ k =>
            have hbefore := hneeded k (Nat.lt_of_succ_lt_succ hk)
            have := sizes_drop_le (next :: rest) k
            rw [List.drop_succ_cons, sizes_cons pls]
            omega
    · rw [clearBySize_of_le hlt]
      refine ⟨.inl ?_, fun _ => Nat.succ_pos _, fun k hk => absurd hk k.not_lt_zero⟩
      have := UInt64.le_iff_toNat_le.mp (UInt64.not_lt.mp hlt)
      show total.toNat + sizes (pls :: l) ≤ _
      omega

/-! ## The clearing -/

variable {freeSize : UInt64} {l : List LogSession}

/-- One size does not wrap around. -/
theorem sizes_lt_of_length_le_one (h : l.length ≤ 1) : sizes l < 2 ^ 64 := by
  match l with
  | [] => exact Nat.two_pow_pos 64
  | [pls] => exact pls.size.toNat_lt
  | _ :: _ :: _ => exact absurd h (by simp)

/-- The last session that went, with those that are left. -/
theorem sizes_drop_pred {r : Nat} (hpos : 0 < r) (hle : r ≤ l.length) :
    ∃ size < 2 ^ 64, sizes (l.drop (r - 1)) = size + sizes (l.drop r) := by
  obtain ⟨pls, -, hsizes⟩ := sizes_drop_succ (l := l) (k := r - 1) (by omega)
  rw [Nat.sub_add_cancel hpos] at hsizes
  exact ⟨_, pls.size.toNat_lt, hsizes⟩

section

variable {unlinked left : List LogSession}

theorem drop_unlinked (hsplit : unlinked ++ left = l) : l.drop unlinked.length = left := by
  rw [← hsplit, List.drop_left]

/-- Where the loop has not come to its end by the limit, more than one session had was missing in
its total. -/
theorem small_of_within (hsplit : unlinked ++ left = l)
    (hneeded : ∀ k < unlinked.length,
      freeSize.toNat + sizes l < sizes l % 2 ^ 64 + sizes (l.drop k))
    (hwithin : sizes left ≤ freeSize.toNat ∨ left.length = 1) : SmallSizes freeSize l := by
  rcases Nat.lt_or_ge (sizes l) (2 ^ 64) with hsmall | hlarge
  · exact .inl hsmall
  · right
    have hleft := drop_unlinked hsplit
    have hlen : l.length = unlinked.length + left.length := by rw [← hsplit, List.length_append]
    have hfree := freeSize.toNat_lt
    have hpos : 0 < unlinked.length := by
      by_contra hzero
      have hall : left = l := by rw [← hleft, Nat.eq_zero_of_not_pos hzero, List.drop_zero]
      rw [hall] at hwithin
      rcases hwithin with hle | hone
      · omega
      · have := sizes_lt_of_length_le_one (Nat.le_of_eq hone)
        omega
    obtain ⟨size, hsize, hlast⟩ := sizes_drop_pred hpos (by omega : unlinked.length ≤ l.length)
    have hover := hneeded (unlinked.length - 1) (by omega)
    rw [hleft] at hlast
    have hone : left.length = 1 := hwithin.resolve_left fun hle => by omega
    have hnewest := sizes_lt_of_length_le_one (Nat.le_of_eq hone)
    have hindex : l.length - 2 = unlinked.length - 1 := by omega
    rw [hindex]
    omega

/-- What is left has room, when the sizes do not wrap around on the way. -/
theorem within_of_small (hsplit : unlinked ++ left = l) (hkept : l ≠ [] → 0 < left.length)
    (hend : sizes l % 2 ^ 64 + sizes left ≤ freeSize.toNat + sizes l ∨ left.length ≤ 1)
    (hsmall : SmallSizes freeSize l) : sizes left ≤ freeSize.toNat ∨ left.length = 1 := by
  have hleft := drop_unlinked hsplit
  have hlen : l.length = unlinked.length + left.length := by rw [← hsplit, List.length_append]
  rcases Nat.lt_or_ge 1 left.length with hmany | hone
  · left
    have hle := hend.resolve_right (by omega)
    rcases hsmall with hsmall | ⟨hlt, hlast⟩
    · omega
    · have hdrop : l.drop (l.length - 2) = left.drop (left.length - 2) := by
        rw [← hleft, List.drop_drop, List.length_drop]
        congr 1
        omega
      have hsuffix := sizes_drop_le left (left.length - 2)
      have hall := sizes_drop_le l unlinked.length
      rw [hleft] at hall
      rw [hdrop] at hlast
      omega
  · rcases eq_or_ne l [] with hnil | hne
    · have hnone : left = [] := (List.append_eq_nil_iff.mp (hsplit.trans hnil)).2
      rw [hnone]
      exact .inl (Nat.zero_le _)
    · have hpos := hkept hne
      exact .inr (by omega)

end

/-- What is behind the loop is within the limit or one session, if and only if the sizes are
small. -/
theorem within_iff (freeSize : UInt64) (l : List LogSession) :
    (sizes (clearBySize freeSize (totalSize l) l).2 ≤ freeSize.toNat ∨
      (clearBySize freeSize (totalSize l) l).2.length = 1) ↔ SmallSizes freeSize l := by
  obtain ⟨hend, hkept, hneeded⟩ := clearBySize_spec freeSize (totalSize l) l
  have hsplit := clearBySize_append freeSize (totalSize l) l
  rw [toNat_totalSize, drop_unlinked hsplit] at hend
  rw [toNat_totalSize] at hneeded
  exact ⟨small_of_within hsplit hneeded, within_of_small hsplit hkept hend⟩

/-- A clearing does what it should exactly if the sizes that are counted are small. -/
theorem clears_iff (count : LogSession → UInt64) (logLimit : Int) (t : Table) :
    (∃ c, threadAutoclear count logLimit t = some c ∧ Clears count logLimit t c) ↔
      SmallSizes (Lognet.freeSize logLimit) (countSizes count t.records) := by
  obtain ⟨c, hc, hsessions, hfile, hcount, hclear⟩ := threadAutoclear_eq count logLimit t
  obtain ⟨-, hkept, hneeded⟩ := clearBySize_spec (Lognet.freeSize logLimit)
    (totalSize (countSizes count t.records)) (countSizes count t.records)
  have happend := clearBySize_append (Lognet.freeSize logLimit)
    (totalSize (countSizes count t.records)) (countSizes count t.records)
  have hwithin := within_iff (Lognet.freeSize logLimit) (countSizes count t.records)
  rw [hclear] at hkept hneeded happend hwithin
  dsimp only at hkept hneeded happend hwithin
  rw [hfile] at happend
  rw [← hcount] at hkept hwithin
  rw [hfile] at hwithin
  rw [← hwithin]
  constructor
  · rintro ⟨c', hc', h⟩
    obtain rfl : c = c' := Option.some.inj (hc.symm.trans hc')
    exact h.within
  · intro h
    refine ⟨c, hc, happend, ?_, ?_, hfile, h, ?_⟩
    · intro hne
      apply hkept
      intro hnil
      have hlen := congrArg List.length hnil
      rw [length_countSizes] at hlen
      exact hne (List.eq_nil_of_length_eq_zero hlen)
    · rw [← hfile, hcount]
    · intro k hk
      have hover := hneeded k hk
      rw [toNat_totalSize] at hover
      have := Nat.mod_le (sizes (countSizes count t.records)) (2 ^ 64)
      omega

/-- Two sessions of 2^63 bytes, as their records say. -/
def hugeSessions : Table where
  sessions := List.replicate sessionCount { newSession ⟨[], [], [], []⟩ 1 with size := 2 ^ 63 }
  count := 2
  length := List.length_replicate
  fits := by decide

theorem clears_fails_huge :
    ¬ ∃ c, threadAutoclear (fun _ => 2 ^ 63) 500 hugeSessions = some c ∧
      Clears (fun _ => 2 ^ 63) 500 hugeSessions c := by
  rintro ⟨c, hc, h⟩
  obtain ⟨c', hc', -, hfile, hcount, hclear⟩ := threadAutoclear_eq (fun _ => 2 ^ 63) 500 hugeSessions
  obtain rfl : c = c' := Option.some.inj (hc.symm.trans hc')
  have hsmall := within_iff (Lognet.freeSize 500) (countSizes (fun _ => 2 ^ 63) hugeSessions.records)
  rw [hclear, ← hcount, hfile] at hsmall
  exact absurd (hsmall.mp h.within) (by decide +kernel)

end AndroidLearn.Lognet
