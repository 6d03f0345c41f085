import AndroidLearn.Lib.Bytes

/-!
# The LOGDATA index file: byte layout

`common.h` declares the two records an index file is made of: one
`LOGDATA_HEADER` followed by `LOGDATA_COUNT` slots of type `LOGDATA`. The
daemon reads and writes them with plain `read`/`write` of the C structs, so the
file format is the struct layout. The layout here is LP64, little endian:
`unsigned long` and `off_t` are 64 bits, the header is 64 bytes (four of them
tail padding), a slot 104.

A field is kept as the natural number it holds; `Fits` says that it is a value
of its C type, which is what the round trips `decode_encode` need. The name in
a slot is the C string in its 96-byte buffer.

The laws at the end give the file as header and slots: what `writeHeader` and
`writeSlot` wrote is read back, and nothing else changes.
-/

namespace AndroidLearn.LoggerCommon

open Bytes

/-- A file name as the index has it. -/
abbrev Name := Bytes

/-- The first word of an index file. -/
def logdataMagic : Nat := 0x89124138

/-- `LOGDATA_COUNT`, the number of slots. Irreducible, so that no proof step
walks all of them. -/
@[irreducible] def logdataCount : Nat := 5000

theorem logdataCount_eq : logdataCount = 5000 := by
  unfold logdataCount
  rfl

theorem logdataCount_pos : 0 < logdataCount := by
  rw [logdataCount_eq]
  omega

/-- The room for a name in an entry. -/
def logdataFileBuflen : Nat := 96
/-- The room for the prefix of the names. -/
def logdataPrefixBuflen : Nat := logdataFileBuflen - 78

/-- One past the largest `unsigned long` / `unsigned long long`. -/
def ulongMod : Nat := 2 ^ 64

theorem logdataCount_lt_ulongMod : logdataCount < ulongMod := by
  rw [logdataCount_eq]
  decide

/-- `LOGDATA_HEADER`. `reserved` is the reserved field with the tail padding. -/
structure LogdataHeader where
  magic : Nat
  entryCount : Nat
  entrySize : Nat
  indexHead : Nat
  indexTail : Nat
  totalSize : Nat
  headerSize : Nat
  reserved : Bytes
  deriving DecidableEq, Repr

/-- `LOGDATA`: one slot. -/
structure Logdata where
  file : Bytes
  size : Nat
  deriving DecidableEq, Repr

/-- The size of the header, seven words and a reserved one. -/
def sizeofHeader : Nat := 64
/-- The size of an entry, a name and a word. -/
def sizeofLogdata : Nat := 104

/-- Offset of slot `i`. -/
def slotOffset (i : Nat) : Nat := i * sizeofLogdata + sizeofHeader

/-- `entry_count * entry_size + header_size`: the length of a whole index file. -/
def indexSize : Nat := slotOffset logdataCount

namespace LogdataHeader

/-- Every field is a value of its C type. -/
structure Fits (h : LogdataHeader) : Prop where
  magic : h.magic < ulongMod
  entryCount : h.entryCount < ulongMod
  entrySize : h.entrySize < ulongMod
  indexHead : h.indexHead < ulongMod
  indexTail : h.indexTail < ulongMod
  totalSize : h.totalSize < ulongMod
  headerSize : h.headerSize < ulongMod
  reserved : h.reserved.length = 8

def encode (h : LogdataHeader) : Bytes :=
  leEncode 8 h.magic ++ (leEncode 8 h.entryCount ++ (leEncode 8 h.entrySize ++
    (leEncode 8 h.indexHead ++ (leEncode 8 h.indexTail ++ (leEncode 8 h.totalSize ++
      (leEncode 8 h.headerSize ++ h.reserved))))))

/-- The `k`-th eight-byte field of a header image. -/
def word (b : Bytes) (k : Nat) : Nat := leDecode ((b.drop (8 * k)).take 8)

def decode (b : Bytes) : LogdataHeader where
  magic := word b 0
  entryCount := word b 1
  entrySize := word b 2
  indexHead := word b 3
  indexTail := word b 4
  totalSize := word b 5
  headerSize := word b 6
  reserved := b.drop 56

theorem length_encode {h : LogdataHeader} (hf : h.Fits) : h.encode.length = sizeofHeader := by
  simp [encode, hf.reserved, sizeofHeader]

theorem word_lt (b : Bytes) (k : Nat) : word b k < ulongMod := by
  have h := leDecode_lt ((b.drop (8 * k)).take 8)
  have hlen : ((b.drop (8 * k)).take 8).length ≤ 8 := List.length_take_le ..
  exact Nat.lt_of_lt_of_le h (Nat.pow_le_pow_right (by omega) hlen)

/-- Whatever bytes are read as a header give values of the C types. -/
theorem decode_fits {b : Bytes} (hb : b.length = sizeofHeader) : (decode b).Fits :=
  ⟨word_lt _ _, word_lt _ _, word_lt _ _, word_lt _ _, word_lt _ _, word_lt _ _, word_lt _ _, by
    rw [decode, List.length_drop, hb]; rfl⟩

/-- The first word of what was encoded. -/
theorem word_leEncode_zero {v : Nat} (hv : v < ulongMod) (rest : Bytes) :
    word (leEncode 8 v ++ rest) 0 = v := by
  rw [word, List.drop_zero, List.take_append_of_le_length (by simp),
    List.take_of_length_le (by simp)]
  exact leDecode_leEncode hv

/-- The words behind it. -/
theorem word_leEncode_succ (v : Nat) (rest : Bytes) (k : Nat) :
    word (leEncode 8 v ++ rest) (k + 1) = word rest k := by
  have hdrop : (leEncode 8 v ++ rest).drop (8 * (k + 1)) = rest.drop (8 * k) := by
    rw [List.drop_append, List.drop_of_length_le (by simp), List.nil_append]
    congr 1
  rw [word, hdrop, word]

theorem decode_encode {h : LogdataHeader} (hf : h.Fits) : decode h.encode = h := by
  have hres : h.encode.drop 56 = h.reserved := by
    simp [encode, List.drop_append, List.drop_of_length_le]
  rw [decode, hres]
  simp only [encode, word_leEncode_succ, word_leEncode_zero hf.magic,
    word_leEncode_zero hf.entryCount, word_leEncode_zero hf.entrySize,
    word_leEncode_zero hf.indexHead, word_leEncode_zero hf.indexTail,
    word_leEncode_zero hf.totalSize, word_leEncode_zero hf.headerSize]

/-- A header image is the image of what it is read as. -/
theorem encode_decode {b : Bytes} (hb : b.length = sizeofHeader) : (decode b).encode = b := by
  have hword : ∀ k, 8 * k + 8 ≤ 64 → ∀ rest, rest = b.drop (8 * (k + 1)) →
      leEncode 8 (word b k) ++ rest = b.drop (8 * k) := by
    intro k hk rest hrest
    have hlen : ((b.drop (8 * k)).take 8).length = 8 := by
      rw [List.length_take, List.length_drop, hb, sizeofHeader]
      omega
    have henc := leEncode_leDecode ((b.drop (8 * k)).take 8)
    rw [hlen] at henc
    rw [word, henc, hrest, show 8 * (k + 1) = 8 * k + 8 from rfl, ← List.drop_drop,
      List.take_append_drop]
  unfold encode decode
  dsimp only
  rw [hword 6 (by omega) _ rfl, hword 5 (by omega) _ rfl, hword 4 (by omega) _ rfl,
    hword 3 (by omega) _ rfl, hword 2 (by omega) _ rfl, hword 1 (by omega) _ rfl,
    hword 0 (by omega) _ rfl]
  rfl

end LogdataHeader

namespace Logdata

structure Fits (d : Logdata) : Prop where
  file : d.file.length = logdataFileBuflen
  size : d.size < ulongMod

def encode (d : Logdata) : Bytes := d.file ++ leEncode 8 d.size

def decode (b : Bytes) : Logdata where
  file := b.take logdataFileBuflen
  size := leDecode (b.drop logdataFileBuflen)

/-- The C string held in `file`. -/
def name (d : Logdata) : Name := d.file.takeWhile (· ≠ 0)

/-- `data.file [0]`: the slot names a file. -/
def Occupied (d : Logdata) : Prop := d.name ≠ []

instance (d : Logdata) : Decidable d.Occupied := inferInstanceAs (Decidable (_ ≠ _))

/-- `memset (& data, 0, sizeof (LOGDATA))`. -/
def zero : Logdata := ⟨List.replicate logdataFileBuflen 0, 0⟩

/-- `SAFE_SPRINTF (data.file, sizeof (data.file), "%s", s)`: the string and its
NUL, cut to the buffer; the bytes behind the NUL keep what the buffer held. -/
def setFile (d : Logdata) (s : Name) : Logdata :=
  let t := s.take (logdataFileBuflen - 1)
  { d with file := ((t ++ 0 :: d.file.drop (t.length + 1)).set (logdataFileBuflen - 1) 0) }

/-- `data.file [0] = 0; data.size = 0;`. -/
def clear (d : Logdata) : Logdata := ⟨d.file.set 0 0, 0⟩

theorem length_encode {d : Logdata} (hf : d.Fits) : d.encode.length = sizeofLogdata := by
  simp [encode, hf.file, sizeofLogdata, logdataFileBuflen]

theorem decode_encode {d : Logdata} (hf : d.Fits) : decode d.encode = d := by
  have htake : d.encode.take logdataFileBuflen = d.file := by
    rw [encode, List.take_append_of_le_length (by rw [hf.file]), ← hf.file, List.take_length]
  have hdrop : d.encode.drop logdataFileBuflen = leEncode 8 d.size := by
    rw [encode, ← hf.file, List.drop_left]
  rw [decode, htake, hdrop, leDecode_leEncode hf.size]

theorem decode_fits {b : Bytes} (hb : b.length = sizeofLogdata) : (decode b).Fits where
  file := by
    rw [decode, List.length_take, hb]
    rfl
  size := by
    have h := leDecode_lt (b.drop logdataFileBuflen)
    rw [List.length_drop, hb] at h
    exact h

theorem zero_fits : zero.Fits := ⟨List.length_replicate, by decide⟩

/-- An entry fits under another name. -/
theorem setFile_fits {d : Logdata} (hf : d.Fits) (s : Name) : (d.setFile s).Fits where
  file := by
    have hlen := hf.file
    simp only [setFile, List.length_set, List.length_append, List.length_cons, List.length_drop,
      List.length_take, logdataFileBuflen] at hlen ⊢
    omega
  size := hf.size

theorem clear_fits {d : Logdata} (hf : d.Fits) : d.clear.Fits :=
  ⟨by rw [clear, List.length_set]; exact hf.file, Nat.two_pow_pos 64⟩

@[simp] theorem zero_name : zero.name = [] := rfl

@[simp] theorem zero_size : zero.size = 0 := rfl

@[simp] theorem setFile_size (d : Logdata) (s : Name) : (d.setFile s).size = d.size := rfl

@[simp] theorem clear_size (d : Logdata) : d.clear.size = 0 := rfl

@[simp] theorem clear_name (d : Logdata) : d.clear.name = [] := by
  unfold clear name
  cases d.file <;> simp

theorem not_occupied_iff {d : Logdata} : ¬ d.Occupied ↔ d.name = [] := not_not

/-- The name stored for `s` is `s` cut to the buffer. -/
theorem setFile_name (d : Logdata) {s : Name} (hs : 0 ∉ s) :
    (d.setFile s).name = s.take (logdataFileBuflen - 1) := by
  have ht : ∀ x ∈ s.take (logdataFileBuflen - 1), decide (x ≠ 0) = true := by
    intro x hx
    have hx0 : x ≠ 0 := fun h0 => hs (h0 ▸ List.mem_of_mem_take hx)
    simpa using hx0
  have hlen : (s.take (logdataFileBuflen - 1)).length ≤ logdataFileBuflen - 1 :=
    List.length_take_le ..
  have hset : ∀ (t rest : Bytes) (k : Nat), t.length ≤ k →
      ∃ rest', (t ++ 0 :: rest).set k 0 = t ++ 0 :: rest' := by
    intro t rest k hk
    rw [List.set_append_right _ _ hk]
    cases hkt : k - t.length with
    | zero => exact ⟨rest, by simp⟩
    | succ m => exact ⟨rest.set m 0, by simp⟩
  obtain ⟨rest', hrest⟩ := hset _ (d.file.drop ((s.take (logdataFileBuflen - 1)).length + 1)) _ hlen
  unfold setFile name
  dsimp only
  rw [hrest, List.takeWhile_append_of_pos ht]
  simp

/-- An entry with a name is occupied. -/
theorem setFile_occupied (d : Logdata) {s : Name} (hs : 0 ∉ s) (hne : s ≠ []) :
    (d.setFile s).Occupied := by
  rw [Occupied, setFile_name d hs]
  cases s with
  | nil => exact absurd rfl hne
  | cons b s => simp [logdataFileBuflen]

end Logdata

/-! ## The index file as header and slots -/

/-- `lseek (fd, 0, SEEK_SET); read_nointr (fd, & hdr, sizeof (LOGDATA_HEADER))`. -/
def readHeader (f : Bytes) : Option LogdataHeader :=
  (readAt f 0 sizeofHeader).map LogdataHeader.decode

/-- `lseek (fd, offset, SEEK_SET); read_nointr (fd, & data, sizeof (LOGDATA))`.
`lseek` refuses an offset that is negative as an `off_t`. -/
def readSlot (f : Bytes) (offset : Nat) : Option Logdata :=
  if offset < 2 ^ 63 then (readAt f offset sizeofLogdata).map Logdata.decode else none

/-- The header is written at the front of the file. -/
def writeHeader (f : Bytes) (h : LogdataHeader) : Bytes := writeAt f 0 h.encode

/-- An entry is written at its offset. -/
def writeSlot (f : Bytes) (offset : Nat) (d : Logdata) : Bytes := writeAt f offset d.encode

/-- The header as read, all zero when the file is too short. -/
def hdr (f : Bytes) : LogdataHeader := LogdataHeader.decode (f.take sizeofHeader)

/-- Slot `i` as read. -/
def slotAt (f : Bytes) (i : Nat) : Logdata :=
  Logdata.decode ((f.drop (slotOffset i)).take sizeofLogdata)

/-- The offset of a slot does not wrap around. -/
theorem slotOffset_lt_ulongMod {i : Nat} (hi : i < logdataCount) :
    slotOffset i % ulongMod = slotOffset i := by
  rw [logdataCount_eq] at hi
  apply Nat.mod_eq_of_lt
  simp only [slotOffset, sizeofLogdata, sizeofHeader, ulongMod]
  omega

section Laws

variable {f : Bytes} {h : LogdataHeader} {d : Logdata} {i j : Nat}

/-- A slot lies inside a file of the right size. -/
theorem slot_in_file (hf : f.length = indexSize) (hi : i < logdataCount) :
    slotOffset i + sizeofLogdata ≤ f.length := by
  simp only [indexSize, slotOffset, logdataCount_eq, sizeofLogdata, sizeofHeader] at *
  omega

theorem header_in_file (hf : f.length = indexSize) : 0 + sizeofHeader ≤ f.length := by
  simp only [indexSize, slotOffset, logdataCount_eq, sizeofLogdata, sizeofHeader] at *
  omega

theorem readHeader_eq (hf : f.length = indexSize) : readHeader f = some (hdr f) := by
  rw [readHeader, readAt_of_le (header_in_file hf), Option.map_some, List.drop_zero, hdr]

/-- A header that can be read is that of the file. -/
theorem readHeader_eq_some (hh : readHeader f = some h) : h = hdr f := by
  unfold readHeader readAt at hh
  split at hh
  next =>
    rw [List.drop_zero] at hh
    exact (Option.some.inj hh).symm
  next => exact absurd hh (by simp)

/-- There is no slot behind the last one. -/
theorem readSlot_behind (hf : f.length = indexSize) :
    readSlot f (slotOffset logdataCount % ulongMod) = none := by
  have hmod : slotOffset logdataCount % ulongMod = slotOffset logdataCount := by
    apply Nat.mod_eq_of_lt
    simp only [slotOffset, logdataCount_eq, sizeofLogdata, sizeofHeader, ulongMod]
    omega
  have hlt : f.length < slotOffset logdataCount + sizeofLogdata := by
    rw [hf, indexSize, sizeofLogdata]
    omega
  rw [hmod, readSlot, readAt_of_lt hlt]
  split
  next => rfl
  next => rfl

/-- A slot of such a file can be read. -/
theorem readSlot_eq (hf : f.length = indexSize) (hi : i < logdataCount) :
    readSlot f (slotOffset i) = some (slotAt f i) := by
  have hin := slot_in_file hf hi
  have hoff : slotOffset i < 2 ^ 63 := by
    simp only [indexSize, slotOffset, logdataCount_eq, sizeofLogdata, sizeofHeader] at *
    omega
  rw [readSlot, if_pos hoff, readAt_of_le hin, Option.map_some, slotAt]

theorem hdr_fits (hf : f.length = indexSize) : (hdr f).Fits := by
  apply LogdataHeader.decode_fits
  rw [List.length_take, hf]
  rfl

theorem slotAt_fits (hf : f.length = indexSize) (hi : i < logdataCount) : (slotAt f i).Fits := by
  apply Logdata.decode_fits
  have hin := slot_in_file hf hi
  rw [List.length_take, List.length_drop]
  omega

/-- Writing the header keeps the size. -/
theorem length_writeHeader (hf : f.length = indexSize) (hh : h.Fits) :
    (writeHeader f h).length = indexSize := by
  rw [writeHeader, length_writeAt, hf]
  rw [LogdataHeader.length_encode hh]
  exact header_in_file hf

theorem length_writeSlot (hf : f.length = indexSize) (hi : i < logdataCount) (hd : d.Fits) :
    (writeSlot f (slotOffset i) d).length = indexSize := by
  rw [writeSlot, length_writeAt, hf]
  rw [Logdata.length_encode hd]
  exact slot_in_file hf hi

/-- A header that was written is read back. -/
theorem hdr_writeHeader (hf : f.length = indexSize) (hh : h.Fits) :
    hdr (writeHeader f h) = h := by
  have hin := header_in_file hf
  rw [← LogdataHeader.length_encode hh] at hin
  have hr := readAt_writeAt_same hin
  rw [readAt_of_le (by rw [length_writeAt hin]; exact hin), List.drop_zero] at hr
  injection hr with hr
  rw [LogdataHeader.length_encode hh] at hr
  rw [hdr, writeHeader, hr, LogdataHeader.decode_encode hh]

/-- Writing back the header that is there changes nothing. -/
theorem writeHeader_hdr (hf : f.length = indexSize) : writeHeader f (hdr f) = f := by
  have hin := header_in_file hf
  have hlen : (f.take sizeofHeader).length = sizeofHeader := by
    rw [List.length_take]
    omega
  rw [writeHeader, hdr, LogdataHeader.encode_decode hlen, writeAt, List.take_zero, Nat.zero_sub,
    hlen, Nat.zero_add]
  exact List.take_append_drop _ _

/-- Writing the header leaves the slots. -/
theorem slotAt_writeHeader (hf : f.length = indexSize) (hh : h.Fits) (hi : i < logdataCount) :
    slotAt (writeHeader f h) i = slotAt f i := by
  have hin := header_in_file hf
  rw [← LogdataHeader.length_encode hh] at hin
  have hr : readAt (writeAt f 0 h.encode) (slotOffset i) sizeofLogdata
      = readAt f (slotOffset i) sizeofLogdata := by
    apply readAt_writeAt_after hin
    rw [LogdataHeader.length_encode hh]
    simp only [slotOffset, sizeofLogdata, sizeofHeader]
    omega
  have hslot := slot_in_file hf hi
  rw [readAt_of_le (by rw [length_writeAt hin]; exact hslot), readAt_of_le hslot] at hr
  injection hr with hr
  rw [slotAt, writeHeader, hr, slotAt]

/-- Writing a slot leaves the header. -/
theorem hdr_writeSlot (hf : f.length = indexSize) (hi : i < logdataCount) (hd : d.Fits) :
    hdr (writeSlot f (slotOffset i) d) = hdr f := by
  have hin := slot_in_file hf hi
  rw [← Logdata.length_encode hd] at hin
  have hr : readAt (writeAt f (slotOffset i) d.encode) 0 sizeofHeader = readAt f 0 sizeofHeader := by
    apply readAt_writeAt_before hin
    simp only [slotOffset]
    omega
  have hh := header_in_file hf
  rw [readAt_of_le (by rw [length_writeAt hin]; exact hh), readAt_of_le hh] at hr
  injection hr with hr
  rw [List.drop_zero, List.drop_zero] at hr
  rw [hdr, writeSlot, hr, hdr]

/-- A slot that was written is read back. -/
theorem slotAt_writeSlot_same (hf : f.length = indexSize) (hi : i < logdataCount) (hd : d.Fits) :
    slotAt (writeSlot f (slotOffset i) d) i = d := by
  have hin := slot_in_file hf hi
  rw [← Logdata.length_encode hd] at hin
  have hr := readAt_writeAt_same hin
  rw [readAt_of_le (by rw [length_writeAt hin]; exact hin)] at hr
  injection hr with hr
  rw [Logdata.length_encode hd] at hr
  rw [slotAt, writeSlot, hr, Logdata.decode_encode hd]

/-- Writing a slot leaves the others. -/
theorem slotAt_writeSlot_ne (hf : f.length = indexSize) (hi : i < logdataCount)
    (hj : j < logdataCount) (hd : d.Fits) (hij : j ≠ i) :
    slotAt (writeSlot f (slotOffset i) d) j = slotAt f j := by
  have hin := slot_in_file hf hi
  rw [← Logdata.length_encode hd] at hin
  have hslot := slot_in_file hf hj
  have hr : readAt (writeAt f (slotOffset i) d.encode) (slotOffset j) sizeofLogdata
      = readAt f (slotOffset j) sizeofLogdata := by
    rcases Nat.lt_or_gt_of_ne hij with hlt | hgt
    · apply readAt_writeAt_before hin
      simp only [slotOffset, sizeofLogdata, sizeofHeader]
      omega
    · apply readAt_writeAt_after hin
      rw [Logdata.length_encode hd]
      simp only [slotOffset, sizeofLogdata, sizeofHeader]
      omega
  rw [readAt_of_le (by rw [length_writeAt hin]; exact hslot), readAt_of_le hslot] at hr
  injection hr with hr
  rw [slotAt, writeSlot, hr, slotAt]

end Laws

end AndroidLearn.LoggerCommon
