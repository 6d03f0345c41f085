import AndroidLearn.Lib.Bytes
import Mathlib.Data.Int.Order.Basic

/-!
# The argument vector of an EXEC request

`htc_if_setup_argv` of `htc_if.c`, and its call in `handle_htc_if_fd`. The payload of an
EXEC request is the number of arguments, room for the pointers to them, and the strings
themselves. `htc_if_setup_argv` puts the pointers at the front of the payload, over the
number too, and never learns how long the payload is: that all of it stays inside rests on
what the peer has sent.

The block of the payload is the memory here, with the address it begins at and pointers of
eight bytes, and a read or a store that is not in it ends the decoding
(`Decoding.outside`). An `int` of the payload is little-endian and signed.

`Decodes` says that the decoding stays inside, and that what it leaves is a vector of
pointers to the strings, each terminated within the block, with a `NULL` behind them; or
that it finds the request invalid.

Theorem: `decodes_iff` says for which blocks that comes about, by the payload alone
(`Consistent`): the number is in it, the pointers have room in front of the strings, and
there are as many terminated strings as the number says, or the first one is empty.
-/

namespace AndroidLearn.HtcIf

open Bytes

/-- `sizeof (char *)` -/
def charPtr : Nat := 8

/-- `pdata`, with `msg.datalen` bytes that were received into it. -/
structure Block where
  /-- the address of the block -/
  base : Nat
  payload : Bytes
  nonnull : 0 < base
  fits : base + payload.length ≤ 256 ^ charPtr

/-- What the block is decoded to. -/
inductive Decoding
  /-- a byte outside of the block is read or written -/
  | outside
  /-- `htc_if_setup_argv` returns -1 -/
  | invalid
  /-- it returns 0, and this is what is in the block then -/
  | ready (mem : Bytes)

/-- `*((int *) p)` -/
def intAt (bytes : Bytes) : Int := (leDecode (bytes.take 4) : Int).bmod (2 ^ 32)

/-- `pdata + sizeof (int) + (sizeof (char *) * (count + 1))`, as an offset; the sum is an `int`. -/
def dataOffset (count : Int) : Int := 4 + charPtr * (count + 1).bmod (2 ^ 32)

/-- `argv [i] = value;` -/
def store (mem : Bytes) (i value : Nat) : Option Bytes :=
  if charPtr * i + charPtr ≤ mem.length then
    some (writeAt mem (charPtr * i) (leEncode charPtr value))
  else none

/-- `for (; *p; p ++);`: the offset of the null, where the bytes from `p` on are given. -/
def skipString : Bytes → Nat → Option Nat
  | [], _ => none
  | b :: bs, p => if b = 0 then some p else skipString bs (p + 1)

/-- The loop of `htc_if_setup_argv`; `left` is `argc - i`. -/
def setupLoop (base : Nat) : Nat → Nat → Nat → Bytes → Option Bytes
  | 0, _, _, mem => some mem
  | left + 1, i, p, mem =>
    (store mem i (base + p)).bind fun mem =>
      (skipString (mem.drop p) p).bind fun p => setupLoop base left (i + 1) (p + 1) mem

/-- `htc_if_setup_argv`: the strings are counted, and their addresses put in front of them. -/
def htcIfSetupArgv (base : Nat) (argc data : Int) (mem : Bytes) : Decoding :=
  if argc ≤ 0 then .invalid
  else if data < 0 then .outside
  else
    match mem[data.toNat]? with
    | none => .outside
    | some first =>
      if first = 0 then .invalid
      else
        match (setupLoop base argc.toNat 0 data.toNat mem).bind (store · argc.toNat 0) with
        | none => .outside
        | some mem => .ready mem

/-- The case `HTC_IF_ACTION_EXEC` up to the call; without a block `malloc` has failed. -/
def decode : Option Block → Decoding
  | none => .outside
  | some block =>
    if block.payload.length < 4 then .outside
    else
      let count := intAt block.payload
      htcIfSetupArgv block.base count (dataOffset count) block.payload

/-! ## What decoding should do -/

/-- Strings one behind the other, each with its null. -/
def terminated (args : List Bytes) : Bytes := args.flatMap (· ++ [0])

/-- Where they begin, the first one at `p`. -/
def starts : Nat → List Bytes → List Nat
  | _, [] => []
  | p, s :: args => p :: starts (p + s.length + 1) args

/-- The first `n` pointers of an array. -/
def pointers : Nat → Bytes → List Nat
  | 0, _ => []
  | n + 1, mem => leDecode (mem.take charPtr) :: pointers n (mem.drop charPtr)

/-- `args` are in the payload, behind the array of the pointers to them and NULL, and behind
the array nothing has changed. -/
structure Vector (block : Block) (args : List Bytes) (mem : Bytes) : Prop where
  number : (args.length : Int) = intAt block.payload
  strings : ∀ s ∈ args, 0 ∉ s
  within : terminated args <+: block.payload.drop (4 + charPtr * (args.length + 1))
  argv : pointers (args.length + 1) mem =
    (starts (4 + charPtr * (args.length + 1)) args).map (block.base + ·) ++ [0]
  behind : mem.drop (charPtr * (args.length + 1)) =
    block.payload.drop (charPtr * (args.length + 1))

/-- Decoding fails or gives the arguments, and stays inside the block. -/
def Decodes (memory : Option Block) : Prop :=
  match decode memory with
  | .outside => False
  | .invalid => True
  | .ready mem => ∃ block ∈ memory, ∃ args, Vector block args mem

/-! ## When it does -/

/-- There is a number, and if it is positive there is room for the pointers and one byte, and as
many nulls behind them unless the first byte is one. -/
structure Consistent (block : Block) : Prop where
  number : 4 ≤ block.payload.length
  room : 0 < intAt block.payload → intAt block.payload + 1 < 2 ^ 31 ∧
    4 + charPtr * ((intAt block.payload).toNat + 1) < block.payload.length
  nulls : 0 < intAt block.payload →
    block.payload[4 + charPtr * ((intAt block.payload).toNat + 1)]? = some 0 ∨
      (intAt block.payload).toNat ≤
        (block.payload.drop (4 + charPtr * ((intAt block.payload).toNat + 1))).count 0

/-! ## Strings behind each other -/

@[simp] theorem terminated_cons (s : Bytes) (args : List Bytes) :
    terminated (s :: args) = s ++ 0 :: terminated args := by
  show s ++ [0] ++ terminated args = _
  rw [List.append_assoc, List.singleton_append]

@[simp] theorem length_starts (p : Nat) (args : List Bytes) :
    (starts p args).length = args.length := by
  induction args generalizing p with
  | nil => rfl
  | cons s args ih => rw [starts, List.length_cons, ih, List.length_cons]

/-- Without a null byte the walk leaves the block. -/
theorem skipString_none {bytes : Bytes} {p : Nat} (h : 0 ∉ bytes) : skipString bytes p = none := by
  induction bytes generalizing p with
  | nil => rfl
  | cons b bytes ih =>
    obtain ⟨hb, hbytes⟩ := List.ne_and_not_mem_of_not_mem_cons h
    rw [skipString, if_neg hb.symm, ih hbytes]

/-- A string is walked to its null byte. -/
theorem skipString_append {s : Bytes} (rest : Bytes) {p : Nat} (h : 0 ∉ s) :
    skipString (s ++ 0 :: rest) p = some (p + s.length) := by
  induction s generalizing p with
  | nil => rfl
  | cons b s ih =>
    obtain ⟨hb, hs⟩ := List.ne_and_not_mem_of_not_mem_cons h
    rw [List.cons_append, skipString, if_neg hb.symm, ih hs, List.length_cons]
    congr 1
    omega

/-- As many strings as there are nulls can be read off. -/
theorem exists_terminated {n : Nat} {bytes : Bytes} (h : n ≤ bytes.count 0) :
    ∃ args : List Bytes, args.length = n ∧ (∀ s ∈ args, 0 ∉ s) ∧ terminated args <+: bytes := by
  induction n generalizing bytes with
  | zero => exact ⟨[], rfl, by simp, List.nil_prefix⟩
  | succ n ih =>
    obtain ⟨s, rest, rfl, hs⟩ :=
      List.eq_append_cons_of_mem (List.count_pos_iff.mp (Nat.lt_of_lt_of_le n.succ_pos h))
    rw [List.count_append, List.count_eq_zero.mpr hs, List.count_cons_self] at h
    have hcount : n ≤ rest.count 0 := by omega
    obtain ⟨args, hlen, hargs, hpre⟩ := ih hcount
    refine ⟨s :: args, by rw [List.length_cons, hlen], ?_, ?_⟩
    · exact List.forall_mem_cons.mpr ⟨hs, hargs⟩
    · rw [terminated_cons]
      exact (List.prefix_append_right_inj s).mpr (List.cons_prefix_cons.mpr ⟨rfl, hpre⟩)

/-- Each string begins inside the block. -/
theorem starts_lt {args : List Bytes} {bytes : Bytes} {p q : Nat}
    (h : terminated args <+: bytes.drop p) (hq : q ∈ starts p args) : q < bytes.length := by
  induction args generalizing p with
  | nil => cases hq
  | cons s args ih =>
    rw [terminated_cons] at h
    obtain ⟨rest, hrest⟩ := h
    have hlen := congrArg List.length hrest
    simp only [List.length_append, List.length_cons, List.length_drop] at hlen
    rcases List.mem_cons.mp hq with rfl | hq
    · omega
    · apply ih _ hq
      refine ⟨rest, ?_⟩
      have hdrop := congrArg (List.drop (s.length + 1)) hrest
      rw [List.append_assoc, List.drop_drop, ← List.drop_drop, List.drop_left] at hdrop
      rw [Nat.add_assoc]
      exact hdrop

/-- The addresses are read back as they were written. -/
theorem pointers_append {values : List Nat} (tail : Bytes) (h : ∀ v ∈ values, v < 256 ^ charPtr) :
    pointers values.length (values.flatMap (leEncode charPtr) ++ tail) = values := by
  induction values with
  | nil => rfl
  | cons v values ih =>
    obtain ⟨hv, hvalues⟩ := List.forall_mem_cons.mp h
    have hlen : (leEncode charPtr v).length = charPtr := length_leEncode _ _
    rw [List.length_cons, List.flatMap_cons, List.append_assoc, pointers,
      List.take_left' hlen, List.drop_left' hlen, leDecode_leEncode hv, ih hvalues]

/-! ## The loop -/

/-- A write leaves what is behind it. -/
theorem drop_writeAt {f d : Bytes} {off p : Nat} (h : off + d.length ≤ f.length)
    (hp : off + d.length ≤ p) : (writeAt f off d).drop p = f.drop p := by
  have htake : (f.take off).length = off := by rw [List.length_take]; omega
  rw [writeAt_eq h, List.drop_append, List.drop_of_length_le (by omega), List.nil_append, htake,
    List.drop_append, List.drop_of_length_le (by omega), List.nil_append, List.drop_drop]
  congr 1
  omega

/-- A write leaves what is in front of it. -/
theorem take_writeAt {f d : Bytes} {off : Nat} (h : off + d.length ≤ f.length) :
    (writeAt f off d).take (off + d.length) = f.take off ++ d := by
  have htake : (f.take off ++ d).length = off + d.length := by
    rw [List.length_append, List.length_take]
    omega
  rw [writeAt_eq h, ← List.append_assoc, List.take_left' htake]

theorem store_of_le {mem : Bytes} {i : Nat} (h : charPtr * i + charPtr ≤ mem.length) (value : Nat) :
    store mem i value = some (writeAt mem (charPtr * i) (leEncode charPtr value)) := if_pos h

/-- What is behind a string and its null. -/
theorem drop_behind {mem s rest : Bytes} {p : Nat} (h : mem.drop p = s ++ 0 :: rest) :
    mem.drop (p + s.length + 1) = rest := by
  have hdrop := congrArg (List.drop (s.length + 1)) h
  rw [List.drop_drop, ← List.drop_drop (l := s ++ _), List.drop_left] at hdrop
  rw [Nat.add_assoc]
  exact hdrop

/-- The pointers come to stand one behind the other, and nothing behind them changes. -/
theorem setupLoop_ready (base : Nat) {args : List Bytes} {i p : Nat} {mem : Bytes}
    (hstrings : ∀ s ∈ args, 0 ∉ s) (hwithin : terminated args <+: mem.drop p)
    (hroom : charPtr * (i + args.length) ≤ p) (hp : p ≤ mem.length) :
    setupLoop base args.length i p mem = some (mem.take (charPtr * i) ++
      (starts p args).flatMap (fun q => leEncode charPtr (base + q)) ++
        mem.drop (charPtr * (i + args.length))) := by
  induction args generalizing i p mem with
  | nil =>
    rw [List.length_nil, setupLoop, starts, List.flatMap_nil, List.append_nil, Nat.add_zero,
      List.take_append_drop]
  | cons s args ih =>
    obtain ⟨hs, hargs⟩ := List.forall_mem_cons.mp hstrings
    rw [List.length_cons] at hroom
    have hsplit : charPtr * (i + (args.length + 1)) =
        charPtr * i + charPtr + charPtr * args.length := by
      ring
    have hlen : (leEncode charPtr (base + p)).length = charPtr := length_leEncode _ _
    have hfit : charPtr * i + (leEncode charPtr (base + p)).length ≤ mem.length := by omega
    obtain ⟨rest, hrest⟩ := hwithin
    rw [terminated_cons, List.append_assoc, List.cons_append] at hrest
    have hend := congrArg List.length hrest
    simp only [List.length_append, List.length_cons, List.length_drop] at hend
    have hbehind := drop_behind hrest.symm
    rw [List.length_cons, setupLoop, store_of_le (by omega), Option.bind_some,
      drop_writeAt hfit (by omega), ← hrest, skipString_append _ hs, Option.bind_some,
      ih hargs ?_ ?_ ?_]
    · have htake : charPtr * (i + 1) = charPtr * i + (leEncode charPtr (base + p)).length := by
        rw [hlen, Nat.mul_add, Nat.mul_one]
      rw [htake, take_writeAt hfit, starts, List.flatMap_cons, List.append_assoc (mem.take _),
        Nat.add_right_comm i, Nat.add_assoc i, drop_writeAt hfit (by omega)]
    · rw [drop_writeAt hfit (by omega), hbehind]
      exact List.prefix_append _ _
    · rw [Nat.add_right_comm i, Nat.add_assoc i]
      omega
    · rw [length_writeAt hfit]
      omega

/-- With fewer nulls than strings the last search leaves the block. -/
theorem setupLoop_none (base : Nat) {left i p : Nat} {mem : Bytes}
    (h : (mem.drop p).count 0 < left) (hroom : charPtr * (i + left) ≤ p) :
    setupLoop base left i p mem = none := by
  induction left generalizing i p mem with
  | zero => omega
  | succ left ih =>
    have hsplit : charPtr * (i + (left + 1)) = charPtr * i + charPtr + charPtr * left := by ring
    have hlen : (leEncode charPtr (base + p)).length = charPtr := length_leEncode _ _
    rw [setupLoop, store]
    split
    next hfit =>
      have hfit' : charPtr * i + (leEncode charPtr (base + p)).length ≤ mem.length := by omega
      rw [Option.bind_some, drop_writeAt hfit' (by omega)]
      by_cases hmem : 0 ∈ mem.drop p
      · obtain ⟨s, rest, hrest, hs⟩ := List.eq_append_cons_of_mem hmem
        have hbehind := drop_behind hrest
        rw [hrest, List.count_append, List.count_eq_zero.mpr hs, List.count_cons_self] at h
        rw [hrest, skipString_append _ hs, Option.bind_some]
        apply ih
        · rw [drop_writeAt hfit' (by omega), hbehind]
          omega
        · rw [Nat.add_right_comm i, Nat.add_assoc i]
          omega
      · rw [skipString_none hmem, Option.bind_none]
    next => rfl

/-! ## The decoding -/

variable {block : Block}

/-- Where the strings begin, as long as it fits into an `int`. -/
theorem dataOffset_eq {argc : Nat} (h : (argc : Int) + 1 < 2 ^ 31) :
    dataOffset argc = (4 + charPtr * (argc + 1) : Nat) := by
  rw [dataOffset, Int.bmod_eq_of_le (by omega) (by omega)]
  push_cast
  rfl

/-- A count of `INT_MAX` makes the offset negative. -/
theorem dataOffset_neg {argc : Nat} (h : (argc : Int) < 2 ^ 31) (hmax : 2 ^ 31 ≤ (argc : Int) + 1) :
    dataOffset argc < 0 := by
  have hargc : (argc : Int) + 1 = 2 ^ 31 := by omega
  rw [dataOffset, hargc]
  decide

theorem intAt_lt (bytes : Bytes) : intAt bytes < 2 ^ 31 :=
  Int.bmod_lt (by decide)

/-- A number that is not positive is refused. -/
theorem decode_nonpos (hnumber : 4 ≤ block.payload.length) (h : intAt block.payload ≤ 0) :
    decode (some block) = .invalid := by
  rw [decode, if_neg (by omega)]
  show htcIfSetupArgv _ _ _ _ = _
  rw [htcIfSetupArgv, if_pos h]

/-- The decoding of a positive number of arguments, whose strings are then looked for in the
payload. -/
theorem decode_pos {argc : Nat} (hnumber : 4 ≤ block.payload.length)
    (hargc : intAt block.payload = argc) (hpos : 0 < argc) (hmax : (argc : Int) + 1 < 2 ^ 31) :
    decode (some block) =
      match block.payload[4 + charPtr * (argc + 1)]? with
      | none => .outside
      | some first =>
        if first = 0 then .invalid
        else
          match (setupLoop block.base argc 0 (4 + charPtr * (argc + 1)) block.payload).bind
            (store · argc 0) with
          | none => .outside
          | some mem => .ready mem := by
  rw [decode, if_neg (by omega)]
  show htcIfSetupArgv _ _ _ _ = _
  rw [hargc, dataOffset_eq hmax, htcIfSetupArgv, if_neg (by omega), if_neg (by omega),
    Int.toNat_natCast, Int.toNat_natCast]

/-- The strings that stand behind the array are what the decoding gives. -/
theorem setupLoop_vector {args : List Bytes} (hargc : intAt block.payload = args.length)
    (hstrings : ∀ s ∈ args, 0 ∉ s) (hlt : 4 + charPtr * (args.length + 1) < block.payload.length)
    (hwithin : terminated args <+: block.payload.drop (4 + charPtr * (args.length + 1))) :
    ∃ mem, (setupLoop block.base args.length 0 (4 + charPtr * (args.length + 1))
      block.payload).bind (store · args.length 0) = some mem ∧ Vector block args mem := by
  have hmul : charPtr * (args.length + 1) = charPtr * args.length + charPtr := by ring
  have hzero : (leEncode charPtr 0).length = charPtr := length_leEncode _ _
  rw [setupLoop_ready _ hstrings hwithin (by rw [Nat.zero_add]; omega) (by omega),
    Option.bind_some, Nat.mul_zero, List.take_zero, List.nil_append, Nat.zero_add args.length]
  let values := (starts (4 + charPtr * (args.length + 1)) args).map (block.base + ·)
  have hvalues : (starts (4 + charPtr * (args.length + 1)) args).flatMap
      (fun q => leEncode charPtr (block.base + q)) = values.flatMap (leEncode charPtr) := by
    rw [List.flatMap_map]
  have hlen : (values.flatMap (leEncode charPtr)).length = charPtr * args.length := by
    have hcount : values.length = args.length := by rw [List.length_map, length_starts]
    rw [List.length_flatMap, ← hcount]
    simp [Nat.mul_comm]
  have hdrop : (block.payload.drop (charPtr * args.length)).length =
      block.payload.length - charPtr * args.length := List.length_drop
  have hfit : charPtr * args.length + (leEncode charPtr 0).length ≤
      (values.flatMap (leEncode charPtr) ++ block.payload.drop (charPtr * args.length)).length := by
    rw [List.length_append]
    omega
  rw [hvalues]
  refine ⟨_, store_of_le (by rw [List.length_append]; omega) 0, hargc.symm, hstrings, hwithin,
    ?_, ?_⟩
  · show pointers _ _ = values ++ [0]
    rw [writeAt_eq hfit, List.take_left' hlen, ← List.append_assoc]
    have hcount : args.length + 1 = (values ++ [0]).length := by
      rw [List.length_append, List.length_map, length_starts, List.length_singleton]
    have hflat : values.flatMap (leEncode charPtr) ++ leEncode charPtr 0 =
        (values ++ [0]).flatMap (leEncode charPtr) := by
      rw [List.flatMap_append, List.flatMap_singleton]
    rw [hflat, hcount]
    apply pointers_append
    intro v hv
    rcases List.mem_append.mp hv with hv | hv
    · obtain ⟨q, hq, rfl⟩ := List.mem_map.mp hv
      have := starts_lt hwithin hq
      have := block.fits
      omega
    · obtain rfl := List.mem_singleton.mp hv
      exact Nat.pow_pos (by decide)
  · rw [hmul, drop_writeAt hfit (by omega), List.drop_append, List.drop_of_length_le (by omega),
      List.nil_append, hlen, List.drop_drop]
    exact congrArg (List.drop · block.payload) (by omega)

/-- Refusing is right where it is done. -/
theorem decodes_invalid {memory : Option Block} (h : decode memory = .invalid) :
    Decodes memory := by
  rw [Decodes, h]
  trivial

/-- A vector that is made is right. -/
theorem decodes_ready {args : List Bytes} {mem : Bytes} (h : decode (some block) = .ready mem)
    (hvector : Vector block args mem) : Decodes (some block) := by
  rw [Decodes, h]
  exact ⟨block, rfl, args, hvector⟩

/-- A block whose strings are all there is decoded. -/
theorem decodes_of_consistent (h : Consistent block) : Decodes (some block) := by
  by_cases hpos : 0 < intAt block.payload
  · obtain ⟨hmax, hroom⟩ := h.room hpos
    have hnulls := h.nulls hpos
    obtain ⟨argc, hargc⟩ := Int.eq_ofNat_of_zero_le hpos.le
    rw [hargc, Int.toNat_natCast] at hroom hnulls
    rw [hargc] at hpos hmax
    have hdecode := decode_pos h.number hargc (by omega) hmax
    rw [List.getElem?_eq_getElem hroom] at hdecode hnulls
    dsimp only at hdecode
    split_ifs at hdecode with hfirst
    · exact decodes_invalid hdecode
    · have hcount := hnulls.resolve_left fun he => hfirst (Option.some.inj he)
      obtain ⟨args, rfl, hstrings, hwithin⟩ := exists_terminated hcount
      obtain ⟨mem, hmem, hvector⟩ := setupLoop_vector hargc hstrings hroom hwithin
      rw [hmem] at hdecode
      exact decodes_ready hdecode hvector
  · exact decodes_invalid (decode_nonpos h.number (Int.not_lt.mp hpos))

/-- A block that is decoded rightly is not left. -/
theorem not_outside {memory : Option Block} (h : Decodes memory) : decode memory ≠ .outside := by
  intro he
  rw [Decodes, he] at h
  exact h

/-- It has room for the number. -/
theorem number_of_decodes (h : Decodes (some block)) : 4 ≤ block.payload.length := by
  by_contra hnumber
  apply not_outside h
  rw [decode, if_pos (by omega)]

theorem max_of_decodes {argc : Nat} (h : Decodes (some block))
    (hargc : intAt block.payload = argc) (hpos : 0 < argc) : (argc : Int) + 1 < 2 ^ 31 := by
  have hlt := intAt_lt block.payload
  rw [hargc] at hlt
  by_contra hmax
  apply not_outside h
  rw [decode, if_neg (by have := number_of_decodes h; omega)]
  show htcIfSetupArgv _ _ _ _ = _
  rw [hargc, htcIfSetupArgv, if_neg (by omega), if_pos (dataOffset_neg hlt (by omega))]

/-- It has room for the addresses. -/
theorem room_of_decodes {argc : Nat} (h : Decodes (some block))
    (hargc : intAt block.payload = argc) (hpos : 0 < argc) :
    4 + charPtr * (argc + 1) < block.payload.length := by
  by_contra hroom
  have hdecode := decode_pos (number_of_decodes h) hargc hpos (max_of_decodes h hargc hpos)
  rw [List.getElem?_eq_none (by omega)] at hdecode
  exact not_outside h hdecode

/-- It has a null byte for each string. -/
theorem nulls_of_decodes {argc : Nat} (h : Decodes (some block))
    (hargc : intAt block.payload = argc) (hpos : 0 < argc) :
    block.payload[4 + charPtr * (argc + 1)]? = some 0 ∨
      argc ≤ (block.payload.drop (4 + charPtr * (argc + 1))).count 0 := by
  have hroom := room_of_decodes h hargc hpos
  have hdecode := decode_pos (number_of_decodes h) hargc hpos (max_of_decodes h hargc hpos)
  rw [List.getElem?_eq_getElem hroom] at hdecode ⊢
  by_cases hfirst : block.payload[4 + charPtr * (argc + 1)] = 0
  · exact Or.inl (congrArg some hfirst)
  · right
    by_contra hcount
    dsimp only at hdecode
    have hnone := setupLoop_none block.base (i := 0) (Nat.lt_of_not_ge hcount)
      (by rw [Nat.zero_add, Nat.mul_add]; omega)
    rw [if_neg hfirst, hnone] at hdecode
    exact not_outside h hdecode

/-- Only such a block is decoded. -/
theorem consistent_of_decodes (h : Decodes (some block)) : Consistent block := by
  constructor
  case number => exact number_of_decodes h
  all_goals
    intro hpos
    obtain ⟨argc, hargc⟩ := Int.eq_ofNat_of_zero_le hpos.le
    rw [hargc] at hpos ⊢
    rw [Int.toNat_natCast]
  case room =>
    exact ⟨max_of_decodes h hargc (by omega), room_of_decodes h hargc (by omega)⟩
  case nulls => exact nulls_of_decodes h hargc (by omega)

/-- Decoding stays inside the payload exactly if there is one and it is consistent. -/
theorem decodes_iff (memory : Option Block) :
    Decodes memory ↔ ∃ block, memory = some block ∧ Consistent block := by
  constructor
  · intro h
    cases memory with
    | none => exact h.elim
    | some block => exact ⟨block, rfl, consistent_of_decodes h⟩
  · rintro ⟨block, rfl, h⟩
    exact decodes_of_consistent h

/-- One argument is declared, and the payload ends behind its first byte. -/
def unterminated : Block :=
  ⟨4096, [1, 0, 0, 0] ++ List.replicate 16 0 ++ [97], by decide, by decide⟩

theorem decodes_fails_unterminated : ¬ Decodes (some unterminated) := by
  intro h
  exact h

end AndroidLearn.HtcIf
