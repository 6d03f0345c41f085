import AndroidLearn.Lib.Bytes

/-!
# The main-board version

`get_mb_version` of `mb.c` reads a block of the `mfg` partition, in which there is an
entry at every 16 bytes, and puts the strings of the entries together, one on a line. An
entry that begins with 0 or 0xff is the last one.

What `partition_read` returns is a parameter: any block, or none. The memory is the block
and the caller's buffer, and what lies behind the block is not to be looked at: a string
that does not end in it, and an entry that begins behind it, end the call as
`Result.outside`. `char` may be signed or not, which is of consequence for the test for
0xff.

The buffer for the version is minded, and it ends the loop on every block, since each
string has at least a byte. The end of the block is not: neither has a string to end in it
nor does an entry have to be the last one.

Theorem: `version_iff` says for which blocks, buffers and kinds of `char` that comes out
well.
-/

namespace AndroidLearn.Mb

/-- `MBSN_LEN`, the size of the block. -/
def mbsnLen : Nat := 512

/-- What the loop comes to. -/
inductive Result
  | running
  /-- a byte is read that is not in the block, or written behind the buffer -/
  | outside
  | done (ret : Int) (version : Bytes)

/-- `(*ptr == 0x00) || (*ptr == 0xff)`; a `char` that has a sign is never 0xff. -/
def isLast (charSigned : Bool) (c : UInt8) : Bool := c == 0 || (!charSigned && c == 0xff)

/-- `strcat`, to a buffer of `size` bytes. -/
def strcat (size : Nat) (version s : Bytes) : Option Bytes :=
  if version.length + s.length < size then some (version ++ s) else none

/-- `strlen (ptr)`, if the string ends. -/
def strlen (rest : Bytes) : Option Nat :=
  if 0 ∈ rest then some (rest.takeWhile (· ≠ 0)).length else none

/-- The loop; `rest` is what is in the block from `ptr` on, and `size` the size of the buffer. -/
def versionLoop (charSigned : Bool) (size : Nat) : Nat → Bytes → Nat → Bytes → Result
  | 0, _, _, _ => .running
  | fuel + 1, rest, len, version =>
    match rest.head? with
    | none => .outside
    | some c =>
      if isLast charSigned c then .done 0 version
      else
        match strlen rest with
        | none => .outside
        | some datalen =>
          if len ≤ datalen then .done 0 version
          else
            match strcat size version (rest.take datalen) with
            | none => .outside
            | some version =>
              let len := len - datalen
              if len ≤ 1 then .done 0 version
              else
                match strcat size version [10] with
                | none => .outside
                | some version => versionLoop charSigned size fuel (rest.drop 16) (len - 1) version

/-- `get_mb_version`; `block` is what `partition_read` has read, if there is memory for it and
the partition can be opened and read. -/
def getMbVersion (charSigned : Bool) (fuel : Nat) (len : Int) (block : Option Bytes) : Result :=
  if len ≤ 16 then .done (-1) []
  else
    match block with
    | none => .done (-1) []
    | some data => versionLoop charSigned len.toNat fuel data len.toNat []

/-- The loop ends, and nothing is read outside of the block or written outside of the buffer. -/
def Bounded (charSigned : Bool) (len : Int) (block : Option Bytes) : Prop :=
  ∃ fuel ret version, getMbVersion charSigned fuel len block = .done ret version

/-! ## When it does -/

/-- An entry that is the last one. -/
def Last (charSigned : Bool) (rest : Bytes) : Prop := ∃ c ∈ rest.head?, isLast charSigned c = true

/-- What the strings of `n` entries fill of the buffer, with a byte more for each. -/
def filled : Nat → Bytes → Nat
  | 0, _ => 0
  | n + 1, rest => (rest.takeWhile (· ≠ 0)).length + 1 + filled n (rest.drop 16)

/-- There are entries that are not the last one and have strings that end in the block, and
behind them is the last one, or they fill the buffer. -/
def Listed (charSigned : Bool) (len : Nat) (data : Bytes) : Prop :=
  ∃ n, (∀ k < n, ¬ Last charSigned (data.drop (16 * k)) ∧ 0 ∈ data.drop (16 * k)) ∧
    (Last charSigned (data.drop (16 * n)) ∨ len ≤ filled n data)

/-! ## The loop -/

variable {charSigned : Bool} {size len : Nat} {rest version : Bytes}

/-- The length of the string of an entry. -/
def datalen (rest : Bytes) : Nat := (rest.takeWhile (· ≠ 0)).length

/-- The last entry ends the loop. -/
theorem versionLoop_last (h : Last charSigned rest) (fuel : Nat) :
    versionLoop charSigned size (fuel + 1) rest len version = .done 0 version := by
  obtain ⟨c, hc, hlast⟩ := h
  rw [versionLoop, Option.mem_def.mp hc]
  exact if_pos hlast

/-- A round for an entry that is not the last one comes to its string. -/
theorem versionLoop_entry (hlast : ¬ Last charSigned rest) (hends : 0 ∈ rest) (fuel : Nat) :
    versionLoop charSigned size (fuel + 1) rest len version =
      if len ≤ datalen rest then .done 0 version
      else
        match strcat size version (rest.take (datalen rest)) with
        | none => .outside
        | some version =>
          if len - datalen rest ≤ 1 then .done 0 version
          else
            match strcat size version [10] with
            | none => .outside
            | some version =>
              versionLoop charSigned size fuel (rest.drop 16) (len - datalen rest - 1) version := by
  cases rest with
  | nil => cases hends
  | cons c rest =>
    have hc : ¬ isLast charSigned c = true := fun h => hlast ⟨c, rfl, h⟩
    have hstrlen : strlen (c :: rest) = some (datalen (c :: rest)) := if_pos hends
    rw [versionLoop]
    simp only [List.head?_cons, if_neg hc, hstrlen]

theorem strcat_of_lt {s : Bytes} (h : version.length + s.length < size) :
    strcat size version s = some (version ++ s) := if_pos h

theorem length_take_datalen (rest : Bytes) : (rest.take (datalen rest)).length = datalen rest := by
  have hle : datalen rest ≤ rest.length := (List.takeWhile_sublist _).length_le
  rw [List.length_take, Nat.min_eq_left hle]

/-- The string fills the buffer. -/
theorem versionLoop_full (hlast : ¬ Last charSigned rest) (hends : 0 ∈ rest)
    (hroom : version.length + len = size) (hfull : len ≤ datalen rest + 1) (fuel : Nat) :
    ∃ version', versionLoop charSigned size (fuel + 1) rest len version = .done 0 version' := by
  rw [versionLoop_entry hlast hends]
  by_cases hle : len ≤ datalen rest
  · exact ⟨_, if_pos hle⟩
  · rw [if_neg hle, strcat_of_lt (by rw [length_take_datalen]; omega)]
    exact ⟨_, if_pos (by omega)⟩

/-- The string and the line end have room, and there is as much room left as `len` says. -/
theorem versionLoop_next (hlast : ¬ Last charSigned rest) (hends : 0 ∈ rest)
    (hroom : version.length + len = size) (hlt : datalen rest + 1 < len) (fuel : Nat) :
    ∃ version', version'.length + (len - (datalen rest + 1)) = size ∧
      versionLoop charSigned size (fuel + 1) rest len version =
        versionLoop charSigned size fuel (rest.drop 16) (len - (datalen rest + 1)) version' := by
  have hlen := length_take_datalen rest
  refine ⟨version ++ rest.take (datalen rest) ++ [10], ?_, ?_⟩
  · rw [List.length_append, List.length_append, hlen, List.length_singleton]
    omega
  · rw [versionLoop_entry hlast hends, if_neg (by omega), strcat_of_lt (by omega)]
    dsimp only
    rw [if_neg (by omega), strcat_of_lt (by
      rw [List.length_append, hlen, List.length_singleton]
      omega)]
    dsimp only
    rw [Nat.sub_sub]

/-- The end of the block, or of a string that does not end in it. -/
theorem versionLoop_outside (hlast : ¬ Last charSigned rest) (hends : 0 ∉ rest) (fuel : Nat) :
    versionLoop charSigned size (fuel + 1) rest len version = .outside := by
  cases rest with
  | nil => rfl
  | cons c rest =>
    have hc : ¬ isLast charSigned c = true := fun h => hlast ⟨c, rfl, h⟩
    have hstrlen : strlen (c :: rest) = none := if_neg hends
    rw [versionLoop]
    simp only [List.head?_cons, if_neg hc, hstrlen]

theorem filled_succ (n : Nat) (rest : Bytes) :
    filled (n + 1) rest = datalen rest + 1 + filled n (rest.drop 16) := rfl

/-- An entry has 16 bytes. -/
theorem drop_entry (rest : Bytes) (k : Nat) :
    rest.drop (16 * (k + 1)) = (rest.drop 16).drop (16 * k) := by
  rw [List.drop_drop]
  congr 1
  omega

/-- With as many rounds as there is room the loop ends on what is listed. -/
theorem versionLoop_of_listed (h : Listed charSigned len rest) (hroom : version.length + len = size)
    (hpos : 0 < len) {fuel : Nat} (hfuel : len ≤ fuel) :
    ∃ version', versionLoop charSigned size fuel rest len version = .done 0 version' := by
  obtain ⟨n, hentries, hend⟩ := h
  induction n generalizing fuel rest len version with
  | zero =>
    obtain ⟨fuel, rfl⟩ := Nat.exists_eq_succ_of_ne_zero (by omega : fuel ≠ 0)
    have hlast := hend.resolve_right (by show ¬ len ≤ 0; omega)
    exact ⟨version, versionLoop_last hlast fuel⟩
  | succ n ih =>
    obtain ⟨fuel, rfl⟩ := Nat.exists_eq_succ_of_ne_zero (by omega : fuel ≠ 0)
    obtain ⟨hlast, hends⟩ := hentries 0 (Nat.succ_pos n)
    rw [Nat.mul_zero, List.drop_zero] at hlast hends
    rcases Nat.lt_or_ge (datalen rest + 1) len with hlt | hge
    · obtain ⟨version', hroom', hstep⟩ := versionLoop_next hlast hends hroom hlt fuel
      rw [hstep]
      apply ih hroom' (by omega) (by omega)
      · intro k hk
        rw [← drop_entry]
        exact hentries (k + 1) (Nat.succ_lt_succ hk)
      · rw [← drop_entry]
        apply hend.imp_right
        intro hfilled
        rw [filled_succ] at hfilled
        omega
    · exact versionLoop_full hlast hends hroom hge fuel

/-- Only a list that ends, and fits, is gone through. -/
theorem listed_of_versionLoop {fuel : Nat} {ret : Int} {version' : Bytes}
    (hroom : version.length + len = size)
    (h : versionLoop charSigned size fuel rest len version = .done ret version') :
    Listed charSigned len rest := by
  induction fuel generalizing rest len version with
  | zero => cases h
  | succ fuel ih =>
    by_cases hlast : Last charSigned rest
    · exact ⟨0, fun k hk => absurd hk k.not_lt_zero, .inl hlast⟩
    · by_cases hends : 0 ∈ rest
      · rcases Nat.lt_or_ge (datalen rest + 1) len with hlt | hge
        · obtain ⟨version'', hroom', hstep⟩ := versionLoop_next hlast hends hroom hlt fuel
          rw [hstep] at h
          obtain ⟨n, hentries, hend⟩ := ih hroom' h
          refine ⟨n + 1, ?_, ?_⟩
          · intro k hk
            cases k with
            | zero => exact ⟨hlast, hends⟩
            | succ k =>
              rw [drop_entry]
              exact hentries k (Nat.lt_of_succ_lt_succ hk)
          · rw [drop_entry]
            apply hend.imp_right
            intro hfilled
            rw [filled_succ]
            omega
        · refine ⟨1, ?_, .inr hge⟩
          intro k hk
          obtain rfl : k = 0 := by omega
          exact ⟨hlast, hends⟩
      · rw [versionLoop_outside hlast hends] at h
        cases h

/-- The block is kept to exactly if it is listed, where it is looked through at all. -/
theorem version_iff (charSigned : Bool) (len : Int) (block : Option Bytes) :
    Bounded charSigned len block ↔
      16 < len → ∀ data, block = some data → Listed charSigned len.toNat data := by
  unfold Bounded getMbVersion
  rcases Int.lt_or_le 16 len with hlt | hle
  · simp only [if_neg (Int.not_le.mpr hlt), hlt, true_imp_iff]
    cases block with
    | none =>
      refine ⟨fun _ data h => ?_, fun _ => ⟨0, -1, [], rfl⟩⟩
      cases h
    | some data =>
      constructor
      · rintro ⟨fuel, ret, version, h⟩ data' hdata
        obtain rfl := Option.some.inj hdata
        exact listed_of_versionLoop (Nat.zero_add _) h
      · intro h
        have hroom : ([] : Bytes).length + len.toNat = len.toNat := Nat.zero_add _
        obtain ⟨version, hdone⟩ :=
          versionLoop_of_listed (h data rfl) hroom (by omega) (Nat.le_refl _)
        exact ⟨len.toNat, 0, version, hdone⟩
  · simp only [if_pos hle]
    exact ⟨fun _ h => absurd hle (Int.not_le.mpr h), fun _ => ⟨0, -1, [], rfl⟩⟩

/-- A block of letters alone, for a buffer of 128 bytes. -/
theorem version_fails_letters :
    ¬ Bounded false 128 (some (List.replicate mbsnLen 65)) := by
  rintro ⟨fuel, ret, version, h⟩
  cases fuel with
  | zero => cases h
  | succ fuel =>
    have hlast : ¬ Last false (List.replicate mbsnLen 65) := by
      rintro ⟨c, hc, hlast⟩
      rw [List.head?_replicate, if_neg (by decide)] at hc
      obtain rfl : 65 = c := Option.some.inj hc
      exact absurd hlast (by decide)
    have hends : 0 ∉ List.replicate mbsnLen (65 : UInt8) := by
      intro hmem
      exact absurd (List.eq_of_mem_replicate hmem) (by decide)
    rw [getMbVersion, if_neg (by decide)] at h
    rw [versionLoop_outside hlast hends] at h
    cases h

end AndroidLearn.Mb
