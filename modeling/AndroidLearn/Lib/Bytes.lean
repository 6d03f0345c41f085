import Mathlib.Data.List.Basic
import Mathlib.Tactic.Ring

/-!
# Bytes, little-endian words and positional file I/O

A file is its list of bytes. `readAt f off n` is a `read` of `n` bytes at offset `off`
that either transfers all of them or fails (`none`, a short read); `writeAt f off d` is a
`write` of all of `d`, padding a gap behind the end with zeros as the kernel does.

`leEncode` and `leDecode` take a number apart into bytes, the lowest first, and put it
together again; each undoes the other where the number fits (`leDecode_leEncode`,
`leEncode_leDecode`).

The laws of the files are the usual three: what was written is read back
(`readAt_writeAt_same`), a disjoint range is untouched (`readAt_writeAt_before`,
`readAt_writeAt_after`), and the length does not change when the write stays inside the
file (`length_writeAt`).
-/

namespace AndroidLearn

/-- A block of bytes. -/
abbrev Bytes := List UInt8

namespace Bytes

/-- The `w` low bytes of `v`, least significant first. -/
def leEncode : Nat → Nat → Bytes
  | 0, _ => []
  | w + 1, v => UInt8.ofNat v :: leEncode w (v / 256)

/-- The value of a little-endian byte string. -/
def leDecode : Bytes → Nat
  | [] => 0
  | b :: bs => b.toNat + 256 * leDecode bs

@[simp] theorem length_leEncode (w v : Nat) : (leEncode w v).length = w := by
  induction w generalizing v with
  | zero => rfl
  | succ w ih => simp [leEncode, ih]

/-- A number that fits comes back. -/
theorem leDecode_leEncode {w v : Nat} (h : v < 256 ^ w) : leDecode (leEncode w v) = v := by
  induction w generalizing v with
  | zero => simp only [leEncode, leDecode]; omega
  | succ w ih =>
    have hdiv : v / 256 < 256 ^ w := by
      rw [Nat.div_lt_iff_lt_mul (by omega)]
      rwa [pow_succ] at h
    rw [leEncode, leDecode, ih hdiv, UInt8.toNat_ofNat']
    omega

theorem leEncode_leDecode (bs : Bytes) : leEncode bs.length (leDecode bs) = bs := by
  induction bs with
  | nil => rfl
  | cons b bs ih =>
    have hb := b.toNat_lt
    have hdiv : (b.toNat + 256 * leDecode bs) / 256 = leDecode bs := by omega
    have hlow : UInt8.ofNat (b.toNat + 256 * leDecode bs) = b := by
      apply UInt8.toNat_inj.mp
      rw [UInt8.toNat_ofNat']
      omega
    rw [List.length_cons, leDecode, leEncode, hdiv, ih, hlow]

/-- What a block can stand for. -/
theorem leDecode_lt (bs : Bytes) : leDecode bs < 256 ^ bs.length := by
  induction bs with
  | nil => simp [leDecode]
  | cons b bs ih =>
    have hb := b.toNat_lt
    rw [leDecode, List.length_cons, pow_succ]
    omega

/-- `lseek` to `off` and `read` exactly `n` bytes. -/
def readAt (f : Bytes) (off n : Nat) : Option Bytes :=
  if off + n ≤ f.length then some ((f.drop off).take n) else none

/-- `lseek` to `off` and `write` all of `d`. -/
def writeAt (f : Bytes) (off : Nat) (d : Bytes) : Bytes :=
  f.take off ++ List.replicate (off - f.length) 0 ++ d ++ f.drop (off + d.length)

theorem readAt_of_le {f : Bytes} {off n : Nat} (h : off + n ≤ f.length) :
    readAt f off n = some ((f.drop off).take n) := if_pos h

theorem readAt_of_lt {f : Bytes} {off n : Nat} (h : f.length < off + n) :
    readAt f off n = none := if_neg (by omega)

/-- A write inside a block does not lengthen it. -/
theorem length_writeAt {f d : Bytes} {off : Nat} (h : off + d.length ≤ f.length) :
    (writeAt f off d).length = f.length := by
  simp only [writeAt, List.length_append, List.length_take, List.length_replicate,
    List.length_drop]
  omega

/-- A write inside the file is a splice of three pieces. -/
theorem writeAt_eq {f d : Bytes} {off : Nat} (h : off + d.length ≤ f.length) :
    writeAt f off d = f.take off ++ (d ++ f.drop (off + d.length)) := by
  have hgap : off - f.length = 0 := by omega
  simp [writeAt, hgap]

/-- A byte behind a write, by where it is. -/
theorem getElem?_writeAt {f d : Bytes} {off : Nat} (h : off + d.length ≤ f.length) (i : Nat) :
    (writeAt f off d)[i]? =
      if i < off then f[i]? else if i < off + d.length then d[i - off]? else f[i]? := by
  have htake : (f.take off).length = off := by rw [List.length_take]; omega
  rw [writeAt_eq h, List.getElem?_append, htake, List.getElem?_append, List.getElem?_drop]
  split
  next hlt => rw [List.getElem?_take, if_pos hlt]
  next hge =>
    split
    next hin => rw [if_pos (by omega)]
    next hout =>
      rw [if_neg (by omega)]
      congr 1
      omega

/-- What was written is read back. -/
theorem readAt_writeAt_same {f d : Bytes} {off : Nat} (h : off + d.length ≤ f.length) :
    readAt (writeAt f off d) off d.length = some d := by
  rw [readAt_of_le (by rw [length_writeAt h]; exact h), writeAt_eq h]
  have htake : (f.take off).length = off := by rw [List.length_take]; omega
  rw [List.drop_append_of_le_length (by omega), List.drop_of_length_le (by omega),
    List.nil_append, List.take_append_of_le_length (by omega), List.take_length]

/-- A range in front of the written one is untouched. -/
theorem readAt_writeAt_before {f d : Bytes} {off off' n : Nat} (h : off + d.length ≤ f.length)
    (hd : off' + n ≤ off) : readAt (writeAt f off d) off' n = readAt f off' n := by
  rw [readAt_of_le (by rw [length_writeAt h]; omega), readAt_of_le (by omega), writeAt_eq h]
  have htake : (f.take off).length = off := by rw [List.length_take]; omega
  rw [List.drop_append_of_le_length (by omega), List.take_append_of_le_length
    (by rw [List.length_drop]; omega), List.drop_take, List.take_take]
  congr 2
  omega

/-- A range behind the written one is untouched. -/
theorem readAt_writeAt_after {f d : Bytes} {off off' n : Nat} (h : off + d.length ≤ f.length)
    (hd : off + d.length ≤ off') : readAt (writeAt f off d) off' n = readAt f off' n := by
  unfold readAt
  rw [length_writeAt h, writeAt_eq h]
  have htake : (f.take off).length = off := by rw [List.length_take]; omega
  have hdrop : (f.take off ++ (d ++ f.drop (off + d.length))).drop off' = f.drop off' := by
    rw [List.drop_append, List.drop_append, List.drop_of_length_le (by omega),
      List.drop_of_length_le (by omega), List.nil_append, List.nil_append, List.drop_drop]
    congr 1
    omega
  rw [hdrop]

end Bytes

end AndroidLearn
