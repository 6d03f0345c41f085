import AndroidLearn.LoggerCommon.NewFile

/-!
# The path of a log file, and the one in its slot

`logger_common_generate_new_file` of `logctl.c` prints the directory and the name into a
buffer of `PATH_MAX` bytes and creates that file; `logger_common_logdata_add_file` stores
what is behind the last slash of the buffer; `logger_common_logdata_remove_file` prints
the directory and the stored name to get the path again.

Here a path is the bytes of the buffer, with the directory in it, which ends with a slash
and may be of any length (`LogDir`); what does not fit is cut, as `snprintf` does it.

The name always fits its slot (`nameBytes_length_le`), and so does what the buffer holds
of it (`NewFileArgs.kept`). That the two paths are the same is a matter of slashes: the
properties of the device might have one, and it would be the last one.

Theorem: `rebuilt_iff`, for every prefix that is accepted, directory and set of
properties.
-/

namespace AndroidLearn.LoggerCommon

/-- `PATH_MAX` -/
def pathMax : Nat := 4096

/-- `SAFE_SPRINTF` into a buffer of `len` bytes. -/
def printed (len : Nat) (s : Bytes) : Bytes := s.take (len - 1)

/-- `path_with_slash`, as `dir_select_log_path` leaves it. -/
structure LogDir where
  bytes : Bytes
  ends : ∃ dir, bytes = dir ++ [slash]
  length_lt : bytes.length < pathMax

/-- The path of the new file, as it is printed and created. -/
def NewFileArgs.path (a : NewFileArgs) (dir : LogDir) (p : CString) : Bytes :=
  printed pathMax (dir.bytes ++ a.nameBytes p)

/-- The slot with the name of the file at `path`: `none` if there is no slash in it. -/
def Logdata.setPath (d : Logdata) (path : Bytes) : Option Logdata :=
  (afterSlash path).map d.setFile

/-- The path that `logger_common_logdata_remove_file` looks at. -/
def Logdata.path (d : Logdata) (dir : LogDir) : Bytes := printed pathMax (dir.bytes ++ d.name)

/-! ## The last slash -/

theorem afterSlash_cons_none {c : UInt8} {s : Bytes} (h : afterSlash s = none) :
    afterSlash (c :: s) = if c = slash then some s else none := by
  rw [afterSlash, h]

theorem afterSlash_cons_some {c : UInt8} {s rest : Bytes} (h : afterSlash s = some rest) :
    afterSlash (c :: s) = some rest := by
  rw [afterSlash, h]

/-- Without a slash there is nothing behind one. -/
theorem afterSlash_eq_none_iff {s : Bytes} : afterSlash s = none ↔ slash ∉ s := by
  induction s with
  | nil => simp [afterSlash]
  | cons c s ih =>
    rw [List.mem_cons, not_or]
    cases hs : afterSlash s with
    | some rest =>
      rw [afterSlash_cons_some hs]
      have hmem : slash ∈ s := by
        by_contra hmem
        exact absurd (ih.mpr hmem) (by simp [hs])
      simp [hmem]
    | none =>
      rw [afterSlash_cons_none hs]
      have hmem := ih.mp hs
      by_cases hc : c = slash
      · simp [hc]
      · simp [hc, hmem, Ne.symm hc]

/-- What has no slash is what is behind the last one. -/
theorem afterSlash_append {s rest : Bytes} (h : slash ∉ rest) :
    afterSlash (s ++ slash :: rest) = some rest := by
  induction s with
  | nil =>
    rw [List.nil_append, afterSlash_cons_none (afterSlash_eq_none_iff.mpr h), if_pos rfl]
  | cons c s ih => rw [List.cons_append, afterSlash_cons_some ih]

/-- What is behind the last slash has none. -/
theorem slash_notMem_of_afterSlash {s rest : Bytes} (h : afterSlash s = some rest) :
    slash ∉ rest := by
  induction s with
  | nil => exact absurd h (by simp [afterSlash])
  | cons c s ih =>
    cases hs : afterSlash s with
    | some rest' =>
      rw [afterSlash_cons_some hs, ← hs] at h
      exact ih h
    | none =>
      rw [afterSlash_cons_none hs] at h
      split at h
      · obtain rfl : s = rest := Option.some.inj h
        exact afterSlash_eq_none_iff.mp hs
      · exact absurd h (by simp)

/-- What is in front does not matter. -/
theorem afterSlash_append_some {front s rest : Bytes} (h : afterSlash s = some rest) :
    afterSlash (front ++ s) = some rest := by
  induction front with
  | nil => exact h
  | cons c front ih => rw [List.cons_append, afterSlash_cons_some ih]

/-- What is behind the last slash is of the path. -/
theorem mem_of_afterSlash {s rest : Bytes} (h : afterSlash s = some rest) {c : UInt8}
    (hc : c ∈ rest) : c ∈ s := by
  obtain ⟨front, rfl⟩ := afterSlash_eq_some h
  exact List.mem_append_right _ (List.mem_cons_of_mem _ hc)

/-! ## The two paths -/

/-- What the buffer holds of the name. -/
def NewFileArgs.kept (a : NewFileArgs) (dir : LogDir) (p : CString) : Bytes :=
  (a.nameBytes p).take (pathMax - 1 - dir.bytes.length)

section Paths

variable {a : NewFileArgs} {dir : LogDir} {p : CString}

/-- The path is the folder, and what is kept of the name. -/
theorem path_eq (a : NewFileArgs) (dir : LogDir) (p : CString) :
    a.path dir p = dir.bytes ++ a.kept dir p := by
  unfold NewFileArgs.path printed NewFileArgs.kept
  rw [List.take_append, List.take_of_length_le (Nat.le_sub_one_of_lt dir.length_lt)]

theorem kept_no_nul (a : NewFileArgs) (dir : LogDir) (p : CString) : 0 ∉ a.kept dir p :=
  fun hmem => nameBytes_no_nul a p (List.mem_of_mem_take hmem)

/-- The name fits its slot, whatever its pieces are. -/
theorem nameBytes_length_lt (a : NewFileArgs) {p : CString}
    (hp : p.bytes.length < logdataPrefixBuflen) : (a.nameBytes p).length < logdataFileBuflen :=
  Nat.lt_of_le_of_lt (nameBytes_length_le a hp) (by decide)

theorem kept_length_lt (hp : p.bytes.length < logdataPrefixBuflen) :
    (a.kept dir p).length < logdataFileBuflen :=
  Nat.lt_of_le_of_lt (List.length_take_le' ..) (nameBytes_length_lt a hp)

/-- A text that fits the slot is read back from it. -/
theorem setFile_name_of_lt (d : Logdata) {s : Bytes} (hs : 0 ∉ s)
    (hlen : s.length < logdataFileBuflen) : (d.setFile s).name = s := by
  rw [Logdata.setFile_name d hs, List.take_of_length_le (Nat.le_sub_one_of_lt hlen)]

/-- The slot after `logger_common_logdata_add_file`, and the path in it. -/
theorem setPath_path (hp : p.bytes.length < logdataPrefixBuflen) (d : Logdata)
    (hslash : slash ∉ a.kept dir p) :
    ∃ d', d.setPath (a.path dir p) = some d' ∧ d'.path dir = a.path dir p := by
  obtain ⟨front, hfront⟩ := dir.ends
  refine ⟨d.setFile (a.kept dir p), ?_, ?_⟩
  · rw [Logdata.setPath, path_eq, hfront, List.append_assoc, List.singleton_append,
      afterSlash_append hslash]
    rfl
  · have hname := setFile_name_of_lt d (kept_no_nul a dir p) (kept_length_lt hp)
    have hlen : (dir.bytes ++ a.kept dir p).length ≤ pathMax - 1 := by
      have hdir := dir.length_lt
      rw [List.length_append, NewFileArgs.kept, List.length_take]
      omega
    rw [Logdata.path, hname, path_eq]
    exact List.take_of_length_le hlen

/-- A name with a slash is stored from its last slash on. -/
theorem slash_notMem_of_setPath {d d' : Logdata} (hset : d.setPath (a.path dir p) = some d')
    (hpath : d'.path dir = a.path dir p) : slash ∉ a.kept dir p := by
  intro hslash
  cases hafter : afterSlash (a.kept dir p) with
  | none => exact afterSlash_eq_none_iff.mp hafter hslash
  | some rest =>
    rw [Logdata.setPath, path_eq, afterSlash_append_some hafter] at hset
    obtain rfl : d.setFile rest = d' := Option.some.inj hset
    have hname : (d.setFile rest).name = rest.take (logdataFileBuflen - 1) :=
      Logdata.setFile_name d fun hzero => kept_no_nul a dir p (mem_of_afterSlash hafter hzero)
    rw [Logdata.path, path_eq, printed, hname, List.take_append,
      List.take_of_length_le (Nat.le_sub_one_of_lt dir.length_lt)] at hpath
    rw [← List.append_cancel_left hpath] at hslash
    exact slash_notMem_of_afterSlash hafter
      (List.mem_of_mem_take (List.mem_of_mem_take hslash))

end Paths

/-- The name of an accepted prefix fits the slot, and the path in the slot is the one that
was created if and only if there is no slash in the name. -/
theorem rebuilt_iff (a : NewFileArgs) (dir : LogDir) (p : CString) (d : Logdata)
    (hp : p.bytes.length < logdataPrefixBuflen) :
    (a.nameBytes p).length < logdataFileBuflen ∧
    ((∃ d', d.setPath (a.path dir p) = some d' ∧ d'.path dir = a.path dir p) ↔
      slash ∉ a.kept dir p) := by
  refine ⟨nameBytes_length_lt a hp, ?_, setPath_path hp d⟩
  intro h
  obtain ⟨d', hset, hpath⟩ := h
  exact slash_notMem_of_setPath hset hpath

/-- `/l/` -/
def sampleDir : LogDir := ⟨[47, 108, 47], ⟨[47, 108], rfl⟩, by decide⟩

/-- `s_` -/
def samplePrefix : CString := ⟨[115, 95], by decide⟩

/-- A product with this name, at most 15 bytes. -/
def sampleArgs (product : ShortString 15) : NewFileArgs where
  filePrefix := some samplePrefix
  hasBuffer := true
  storageCode := 105
  sn := 9999
  serialno := 9999
  timestamp := ⟨⟨List.replicate 15 49, by decide⟩, by decide⟩
  devinfo := ⟨⟨List.replicate 15 100, by decide⟩, by decide⟩
  prdinfo := product
  rominfo := ⟨⟨List.replicate 15 114, by decide⟩, by decide⟩
  code_ok := by decide
  sn_le := by decide
  serialno_le := by decide

/-- With the product `a/b` the slot holds another path than the created one. -/
theorem rebuilt_fails_slash :
    ¬ ∃ d', Logdata.zero.setPath ((sampleArgs ⟨⟨[97, 47, 98], by decide⟩, by decide⟩).path
        sampleDir samplePrefix) = some d' ∧
      d'.path sampleDir = (sampleArgs ⟨⟨[97, 47, 98], by decide⟩, by decide⟩).path
        sampleDir samplePrefix := by
  intro h
  obtain ⟨d', hset, hpath⟩ := h
  exact slash_notMem_of_setPath hset hpath (by decide +kernel)

/-- With the longest pieces the two are the same. -/
theorem rebuilt_longest :
    ∃ d', Logdata.zero.setPath ((sampleArgs ⟨⟨List.replicate 15 112, by decide⟩, by decide⟩).path
        sampleDir samplePrefix) = some d' ∧
      d'.path sampleDir = (sampleArgs ⟨⟨List.replicate 15 112, by decide⟩, by decide⟩).path
        sampleDir samplePrefix :=
  (rebuilt_iff (sampleArgs ⟨⟨List.replicate 15 112, by decide⟩, by decide⟩) sampleDir
    samplePrefix Logdata.zero (by decide)).2.mpr (by decide +kernel)

end AndroidLearn.LoggerCommon
