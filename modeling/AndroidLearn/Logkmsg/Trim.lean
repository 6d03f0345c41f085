import AndroidLearn.Logkmsg.Resume
import AndroidLearn.Logkmsg.Window

/-!
# The end of a read

`read_from_htc_dk_service` of the two copies of `logkmsg.c`, and
`read_from_htc_dlk_service` of `klogcat`. It reads until there is no more, and takes off
what is behind the last whole line. It looks at two bytes behind the one that it has gone
back to; in a read of one byte they are what an earlier read has left in `kbuf`.

What the service sends is any bytes in any pieces, `gather` is how they come together in
`kbuf`, and `Filled` is the buffer after it: what was read, and the stale rest behind it.
The connection to the service is a parameter. The three copies are one definition
(`Service.trim`), and differ in what they do before and behind.

`Trims` says what a read owes: no byte more than was read, nothing off but surplus line
ends or a last line that is not ended, and one newline at the end of what is left.

Theorem: `tail_iff` says which reads are trimmed as they are to be, for every read and
stale rest. `read_trimmed_iff` says of a call as a whole that it returns what the trimming
leaves of what was gathered.
-/

namespace AndroidLearn.Logkmsg

open Conf

/-! ## Reading -/

/-- The reads of the service into `len` bytes: `none` for one that fails, and no bytes at the
end of the data. -/
def gather (len : Nat) : List (Option CString) → CString → Option CString
  | [], input => some input
  | none :: _, _ => none
  | some data :: reads, input =>
    let got := data.take (len - input.length)
    if got = [] then some input
    else if len ≤ (input ++ got).length then
      -- `read not enough buffer!`
      some (input ++ got)
    else gather len reads (input ++ got)

/-- What a read leaves in `kbuf`: its bytes, and behind them what was there. -/
structure Filled where
  input : CString
  stale : CString
  size : input.length + stale.length = kbufSize
  fits : input.length ≤ kbufSize - 1

/-! ## Trimming -/

/-- `remove tailing useless new lines`, with `ptr` at the last byte. -/
def trimEnds (buffer : CString) (ptr : Nat) : Option Int :=
  let count : Int := ptr + 1
  match back isEol buffer 0 ptr with
  | none => none
  | some stop =>
    let rlen : Int := ptr - stop
    match buffer[stop + 1]? with
    | none => none
    | some next =>
      if next ≠ '\n' then some count
      else
        match buffer[stop + 2]? with
        | none => none
        | some behind => if isEol behind then some (count - (rlen - 1)) else some count

/-- A last line that is not ended. -/
def trimLine (buffer : CString) (ptr : Nat) : Option Int :=
  let count : Int := ptr + 1
  match back (fun c => c ≠ '\n') buffer 0 ptr with
  | none => none
  | some stop =>
    let rlen : Int := ptr - stop
    match buffer[stop]? with
    | some c => if c = '\n' then some (count - rlen) else some count
    | none => none

/-- `if (count > 0)`, with the new `count`, or `none` if it looks behind the end of `buffer`. -/
def trimTail (buffer : CString) : Nat → Option Int
  | 0 => some 0
  | ptr + 1 =>
    match buffer[ptr]? with
    | none => none
    | some c => if c = '\n' then trimEnds buffer ptr else trimLine buffer ptr

/-- The functions that have it. -/
inductive Service
  | logkmsgHtcDk | klogcatHtcDk | klogcatHtcDlk

/-- They have the same text. -/
def Service.trim : Service → CString → Nat → Option Int
  | .logkmsgHtcDk => trimTail
  | .klogcatHtcDk => trimTail
  | .klogcatHtcDlk => trimTail

/-! ## The property -/

/-- The lines that are ended. -/
def closed (s : CString) : CString := s.rdropWhile (fun c => c ≠ '\n')

/-- The line ends at the end. -/
def lineEnds (s : CString) : CString := s.rtakeWhile isEol

/-- One of the lines that are ended has more than its end. -/
def HasLine (s : CString) : Prop := ∃ c ∈ closed s, isEol c = false

/-- It ends in a newline, and in one only. -/
def EndsInOne (s : CString) : Prop := s.getLast? = some '\n' ∧ (lineEnds s).count '\n' = 1

/-- What is taken off: line ends behind a newline, or all that is behind the last newline. -/
def Surplus (kept dropped : CString) : Prop :=
  dropped = [] ∨
    kept.getLast? = some '\n' ∧ ((∀ c ∈ dropped, isEol c = true) ∨ '\n' ∉ dropped)

/-- The property. -/
structure Trimmed (input : CString) (count : Nat) : Prop where
  le : count ≤ input.length
  surplus : Surplus (input.take count) (input.drop count)
  ends : HasLine input → EndsInOne (input.take count)

/-- The read is cut where it should be. -/
def Trims (service : Service) (r : Filled) : Prop :=
  ∃ count : Nat, service.trim (r.input ++ r.stale) r.input.length = some (count : Int) ∧
    Trimmed r.input count

/-! ## Its condition -/

/-- A newline alone, with two line ends behind it that are not of this read. -/
def StaleEnds (r : Filled) : Prop :=
  r.input = ['\n'] ∧ ∃ c rest, r.stale = '\n' :: c :: rest ∧ isEol c = true

/-- The lines that are ended are followed by empty ones, and then by one that is not ended; or
the first of their ends is with a carriage return. -/
def EmptyLines (input : CString) : Prop :=
  HasLine input ∧ 2 ≤ (lineEnds (closed input)).count '\n' ∧
    (closed input ≠ input ∨ (lineEnds input).head? = some '\r')

/-- The condition. -/
def Plain (r : Filled) : Prop := ¬StaleEnds r ∧ ¬EmptyLines r.input

/-! ## Going back -/

section

variable {p : Char → Bool} {body run rest : CString} {c : Char}

/-- The walk back does not go past a character that stops it. -/
theorem le_skipBack {head : CString} {k : Nat} (hk : p (head.getD k '\x00') = false) :
    ∀ {i : Nat}, k ≤ i → k ≤ skipBack p head i
  | 0, h => h
  | i + 1, h => by
    unfold skipBack
    split
    case isTrue hp =>
      refine le_skipBack hk (Nat.le_of_lt_succ (Nat.lt_of_le_of_ne h ?_))
      rintro rfl
      rw [hk] at hp
      exact absurd hp (by simp)
    case isFalse => exact h

/-- The pointer goes back over `run` and stops at `c`, or at the start. -/
theorem back_stops (hstop : p c = false ∨ body = []) (hrun : ∀ e ∈ run, p e = true) :
    back p (body ++ c :: (run ++ rest)) 0 (body.length + run.length) = some body.length := by
  have htext : body ++ c :: (run ++ rest) = [] ++ (body ++ c :: run) ++ rest := by simp
  have hlt : body.length + run.length < (body ++ c :: run).length := by
    rw [List.length_append, List.length_cons]
    omega
  have hback := back_eq p [] (body ++ c :: run) rest hlt
  rw [← htext, List.length_nil, Nat.zero_add, Nat.zero_add] at hback
  rw [hback]
  congr 1
  refine Nat.le_antisymm (skipBack_le fun j hj hle => ?_) ?_
  · obtain ⟨i, rfl⟩ := Nat.exists_eq_add_of_lt hj
    have hi : i < run.length := by omega
    rw [List.getD_eq_getElem?_getD, List.getElem?_append_right (by omega),
      show body.length + i + 1 - body.length = i + 1 by omega, List.getElem?_cons_succ,
      List.getElem?_eq_getElem hi, Option.getD_some]
    exact hrun _ (List.getElem_mem hi)
  · rcases hstop with hc | rfl
    · refine le_skipBack ?_ (Nat.le_add_right _ _)
      rw [List.getD_eq_getElem?_getD, List.getElem?_append_right (Nat.le_refl _), Nat.sub_self]
      exact hc
    · exact Nat.zero_le _

/-- Where it stops in a text that is not empty. -/
theorem exists_stop (p : Char → Bool) {s : CString} (hne : s ≠ []) :
    ∃ body c run, s = body ++ c :: run ∧ (p c = false ∨ body = []) ∧ ∀ e ∈ run, p e = true := by
  induction s using List.reverseRecOn with
  | nil => exact absurd rfl hne
  | append_singleton s e ih =>
    cases hp : p e with
    | false => exact ⟨s, e, [], rfl, Or.inl hp, by simp⟩
    | true =>
      rcases eq_or_ne s [] with rfl | hs
      · exact ⟨[], e, [], rfl, Or.inr rfl, by simp⟩
      · obtain ⟨body, c, run, rfl, hstop, hrun⟩ := ih hs
        refine ⟨body, c, run ++ [e], by simp, hstop, fun d hd => ?_⟩
        rcases List.mem_append.mp hd with hd | hd
        · exact hrun d hd
        · rw [List.mem_singleton.mp hd]
          exact hp

theorem getElem?_body (k : Nat) (s : CString) : (body ++ s)[body.length + k]? = s[k]? := by
  rw [List.getElem?_append_right (Nat.le_add_right _ _), Nat.add_sub_cancel_left]

end

/-! ## What is left -/

section

variable {body run stale more : CString} {c next behind : Char}

/-- The cut where the text ends with a line end. -/
theorem trimEnds_eq (hstop : isEol c = false ∨ body = []) (hrun : ∀ e ∈ run, isEol e = true)
    (hmore : run ++ stale = next :: behind :: more) :
    trimEnds (body ++ c :: (run ++ stale)) (body.length + run.length) =
      some ((if next = '\n' ∧ isEol behind = true then body.length + 2
        else body.length + 1 + run.length : Nat) : Int) := by
  have hnext : (body ++ c :: (run ++ stale))[body.length + 1]? = some next := by
    rw [getElem?_body, hmore]
    rfl
  have hbehind : (body ++ c :: (run ++ stale))[body.length + 2]? = some behind := by
    rw [getElem?_body, hmore]
    rfl
  unfold trimEnds
  rw [back_stops hstop hrun]
  dsimp only
  rw [hnext, hbehind]
  dsimp only
  rcases eq_or_ne next '\n' with hnewline | hnewline
  · rw [if_neg (not_not.mpr hnewline)]
    cases isEol behind with
    | true =>
      rw [if_pos rfl, if_pos ⟨hnewline, rfl⟩]
      congr 1
      omega
    | false =>
      rw [if_neg Bool.false_ne_true, if_neg fun h => Bool.false_ne_true h.2]
      congr 1
      omega
  · rw [if_pos hnewline, if_neg fun h => hnewline h.1]
    congr 1
    omega

/-- The cut where it does not. -/
theorem trimLine_eq (hstop : c = '\n' ∨ body = []) (hrun : ∀ e ∈ run, e ≠ '\n') :
    trimLine (body ++ c :: (run ++ stale)) (body.length + run.length) =
      some ((if c = '\n' then body.length + 1 else body.length + 1 + run.length : Nat) : Int) := by
  have hc : (body ++ c :: (run ++ stale))[body.length]? = some c := by
    rw [← Nat.add_zero body.length, getElem?_body]
    rfl
  unfold trimLine
  rw [back_stops (p := fun c => c ≠ '\n') (by simpa using hstop) (by simpa using hrun)]
  dsimp only
  rw [hc]
  dsimp only
  split_ifs
  · congr 1
    omega
  · congr 1
    omega

/-- Behind a byte that is none the ends are those that follow it. -/
theorem lineEnds_append (hc : isEol c = false) (hrun : ∀ e ∈ run, isEol e = true) :
    lineEnds (body ++ c :: run) = run := by
  have hreverse : (body ++ c :: run).reverse = run.reverse ++ c :: body.reverse := by simp
  unfold lineEnds List.rtakeWhile
  rw [hreverse, List.takeWhile_append_of_pos (by simpa using hrun),
    List.takeWhile_cons_of_neg (by simp [hc]), List.append_nil, List.reverse_reverse]

/-- What is cut to its last line end. -/
theorem closed_append (hrun : ∀ e ∈ run, e ≠ '\n') :
    closed (body ++ '\n' :: run) = body ++ ['\n'] := by
  have hreverse : (body ++ '\n' :: run).reverse = run.reverse ++ '\n' :: body.reverse := by simp
  unfold closed List.rdropWhile
  rw [hreverse, List.dropWhile_append_of_pos (by simpa using hrun),
    List.dropWhile_cons_of_neg (by simp)]
  simp

/-- The closed lines end in a newline, of which there is one at least. -/
theorem endsInOne_iff (s : CString) :
    EndsInOne (s ++ ['\n']) ↔ ¬2 ≤ (lineEnds (s ++ ['\n'])).count '\n' := by
  have hends : lineEnds (s ++ ['\n']) = lineEnds s ++ ['\n'] :=
    List.rtakeWhile_concat_pos _ _ _ rfl
  have hpos : 1 ≤ (lineEnds (s ++ ['\n'])).count '\n' := by
    rw [hends, List.count_append]
    exact Nat.le_add_left _ _
  constructor
  · intro h
    rw [h.2]
    exact Nat.lt_irrefl 1
  · intro h
    exact ⟨List.getLast?_concat, by omega⟩

/-- There is no line where only line ends are. -/
theorem not_hasLine (h : ∀ c ∈ closed run, isEol c = true) : ¬HasLine run := by
  rintro ⟨c, hc, hfalse⟩
  rw [h c hc] at hfalse
  exact Bool.noConfusion hfalse

end

/-! ## The kinds of reads -/

/-- Which of the two cuts is made. -/
theorem trimTail_append (body run stale : CString) (c : Char) :
    trimTail (body ++ c :: run ++ stale) (body ++ c :: run).length =
      if (body ++ c :: run).getLast? = some '\n' then
        trimEnds (body ++ c :: (run ++ stale)) (body.length + run.length)
      else trimLine (body ++ c :: (run ++ stale)) (body.length + run.length) := by
  have hlength : (body ++ c :: run).length = body.length + run.length + 1 := by
    rw [List.length_append, List.length_cons, Nat.add_assoc]
  have hlast : (body ++ c :: run ++ stale)[body.length + run.length]? =
      (body ++ c :: run).getLast? := by
    rw [List.getLast?_eq_getElem?, hlength, Nat.add_sub_cancel,
      List.getElem?_append_left (by omega)]
  have hbuffer : body ++ c :: run ++ stale = body ++ c :: (run ++ stale) := by simp
  rw [hlength, trimTail, hlast, hbuffer]
  cases hend : (body ++ c :: run).getLast? with
  | none => exact absurd (List.getLast?_eq_none_iff.mp hend) (by simp)
  | some e => simp only [Option.some.injEq]

section

variable {r : Filled} {body run : CString} {c : Char} {count : Nat}

/-- The cut is right where the text is trimmed there. -/
theorem trims_iff_of (service : Service)
    (h : trimTail (r.input ++ r.stale) r.input.length = some (count : Int)) :
    Trims service r ↔ Trimmed r.input count := by
  have htrim : service.trim (r.input ++ r.stale) r.input.length = some (count : Int) := by
    cases service with
    | logkmsgHtcDk => exact h
    | klogcatHtcDk => exact h
    | klogcatHtcDlk => exact h
  constructor
  · rintro ⟨count', hcount', htrimmed⟩
    rw [htrim] at hcount'
    rwa [← Int.ofNat_inj.mp (Option.some.inj hcount')] at htrimmed
  · exact fun htrimmed => ⟨count, htrim, htrimmed⟩

/-- Nothing is taken off. -/
theorem trimmed_length (input : CString) :
    Trimmed input input.length ↔ (HasLine input → EndsInOne input) := by
  constructor
  · intro h
    have hends := h.ends
    rwa [List.take_length] at hends
  · intro h
    refine ⟨Nat.le_refl _, Or.inl List.drop_length, ?_⟩
    rwa [List.take_length]

/-- What is taken off is behind a newline: line ends, or a line that is not ended. -/
theorem trimmed_of_split {input kept dropped : CString} (hsplit : input = kept ++ ['\n'] ++ dropped)
    (hdropped : (∀ e ∈ dropped, isEol e = true) ∨ '\n' ∉ dropped)
    (hcount : count = kept.length + 1) :
    Trimmed input count ↔ (HasLine input → EndsInOne (kept ++ ['\n'])) := by
  have hlength : (kept ++ ['\n']).length = count := by
    rw [hcount, List.length_append, List.length_singleton]
  have htake : input.take count = kept ++ ['\n'] := by
    rw [hsplit]
    exact List.take_left' hlength
  have hdrop : input.drop count = dropped := by
    rw [hsplit]
    exact List.drop_left' hlength
  constructor
  · intro h
    have hends := h.ends
    rwa [htake] at hends
  · intro h
    refine ⟨?_, ?_, ?_⟩
    · rw [hsplit, List.length_append, hlength]
      exact Nat.le_add_right _ _
    · rw [htake, hdrop]
      exact Or.inr ⟨List.getLast?_concat, hdropped⟩
    · rwa [htake]

theorem not_staleEnds (h : r.input.getLast? ≠ some '\n') : ¬StaleEnds r := by
  rintro ⟨hinput, -⟩
  exact h (by rw [hinput]; rfl)

theorem not_hasLine_of_ne {s : CString} (h : ∀ e ∈ s, e ≠ '\n') : ¬HasLine s := by
  have hclosed : closed s = [] := List.rdropWhile_eq_nil_iff.mpr fun e he => by simpa using h e he
  exact not_hasLine fun e he => absurd (hclosed ▸ he) List.not_mem_nil

/-- Without a line that is ended it is enough that nothing is taken off. -/
theorem trims_unchanged (service : Service)
    (htrim : trimTail (r.input ++ r.stale) r.input.length = some (r.input.length : Int))
    (hnoLine : ¬HasLine r.input) (hstale : ¬StaleEnds r) : Trims service r ↔ Plain r := by
  rw [trims_iff_of service htrim, trimmed_length]
  exact iff_of_true (fun hline => absurd hline hnoLine) ⟨hstale, fun h => hnoLine h.1⟩

theorem closed_of_newline {s : CString} (h : s.getLast? = some '\n') : closed s = s := by
  obtain ⟨front, rfl⟩ := List.getLast?_eq_some_iff.mp h
  exact closed_append (by simp : ∀ e ∈ ([] : CString), e ≠ '\n')

/-- A read that ends in a line which is not ended. -/
theorem trims_line (service : Service) (hinput : r.input = body ++ c :: run)
    (hlast : r.input.getLast? ≠ some '\n') (hstop : c = '\n' ∨ body = [])
    (hrun : ∀ e ∈ run, e ≠ '\n') : Trims service r ↔ Plain r := by
  have htrim := trimTail_append body run r.stale c
  rw [← hinput, if_neg hlast, trimLine_eq hstop hrun] at htrim
  rcases eq_or_ne c '\n' with rfl | hc
  · rw [if_pos rfl] at htrim
    rw [trims_iff_of service htrim, Plain, and_iff_right (not_staleEnds hlast)]
    have hsplit : r.input = body ++ ['\n'] ++ run := by
      rw [hinput]
      simp
    have hclosed : closed r.input = body ++ ['\n'] := by
      rw [hinput]
      exact closed_append hrun
    have hne : closed r.input ≠ r.input := by
      intro heq
      exact hlast (by rw [← heq, hclosed]; exact List.getLast?_concat)
    rw [trimmed_of_split hsplit (Or.inr fun hmem => hrun _ hmem rfl) rfl, endsInOne_iff, ← hclosed]
    constructor
    · rintro hends ⟨hline, htwo, -⟩
      exact hends hline htwo
    · exact fun hplain hline htwo => hplain ⟨hline, htwo, Or.inl hne⟩
  · obtain rfl : body = [] := hstop.resolve_left hc
    have hnone : ∀ e ∈ r.input, e ≠ '\n' := by
      rw [hinput]
      exact List.forall_mem_cons.mpr ⟨hc, hrun⟩
    have hcount : ([] : CString).length + 1 + run.length = r.input.length := by
      rw [hinput]
      show 0 + 1 + run.length = run.length + 1
      omega
    rw [if_neg hc, hcount] at htrim
    exact trims_unchanged service htrim (not_hasLine_of_ne hnone) (not_staleEnds hlast)

/-- A newline alone. -/
theorem trims_newline (service : Service) (hinput : r.input = ['\n']) :
    Trims service r ↔ Plain r := by
  have hnoLine : ¬HasLine r.input := by
    refine not_hasLine fun e he => ?_
    have hmem := (List.rdropWhile_prefix _ _).subset he
    rw [hinput] at hmem
    rw [List.mem_singleton.mp hmem]
    rfl
  obtain ⟨next, behind, more, hstale⟩ : ∃ next behind more, r.stale = next :: behind :: more := by
    have hsize := r.size
    rw [hinput] at hsize
    match r.stale, hsize with
    | [], hsize => exact absurd hsize (by decide)
    | [_], hsize => exact absurd hsize (show ¬1 + 1 = kbufSize by decide)
    | next :: behind :: more, _ => exact ⟨next, behind, more, rfl⟩
  have htrim := trimTail_append [] [] r.stale '\n'
  have hsame : r.input = [] ++ '\n' :: [] := hinput
  rw [← hsame, if_pos (by rw [hinput]; rfl),
    trimEnds_eq (Or.inr rfl) (by simp) (show [] ++ r.stale = next :: behind :: more from hstale)]
    at htrim
  by_cases hends : next = '\n' ∧ isEol behind = true
  · rw [if_pos hends] at htrim
    rw [trims_iff_of service htrim]
    refine iff_of_false (fun h => ?_) fun h => h.1 ⟨hinput, behind, more, ?_, hends.2⟩
    · have hle := h.le
      rw [hinput] at hle
      exact absurd hle (by decide)
    · rw [hstale, hends.1]
  · have hone : ([] : CString).length + 1 + ([] : CString).length = r.input.length := by
      rw [hinput]
      rfl
    rw [if_neg hends, hone] at htrim
    refine trims_unchanged service htrim hnoLine ?_
    rintro ⟨-, c, rest, hsame, hc⟩
    rw [hstale] at hsame
    cases hsame
    exact hends ⟨rfl, hc⟩

/-- What the trimming of a read that ends in a newline looks at is the byte behind `c`, and one
more if there is one. -/
theorem trimTail_ends (hinput : r.input = body ++ c :: run) (hrun : run ≠ [])
    (hlast : r.input.getLast? = some '\n') (hstop : isEol c = false ∨ body = [])
    (hends : ∀ e ∈ run, isEol e = true) :
    trimTail (r.input ++ r.stale) r.input.length =
      some ((if run.head? = some '\n' then body.length + 2 else r.input.length : Nat) : Int) := by
  have htrim := trimTail_append body run r.stale c
  rw [← hinput, if_pos hlast] at htrim
  have hstale : r.stale ≠ [] := by
    intro hnil
    have hsize := r.size
    have hfits := r.fits
    rw [hnil, List.length_nil] at hsize
    have hpos : 0 < kbufSize := by decide
    omega
  have hlength : body.length + 1 + run.length = r.input.length := by
    rw [hinput, List.length_append, List.length_cons]
    omega
  obtain ⟨next, run, rfl⟩ := List.exists_cons_of_ne_nil hrun
  have hhead : (next :: run).head? = some '\n' ↔ next = '\n' := by simp
  cases run with
  | nil =>
    obtain ⟨behind, more, hbehind⟩ := List.exists_cons_of_ne_nil hstale
    rw [htrim, trimEnds_eq hstop hends (show [next] ++ r.stale = next :: behind :: more by
      rw [hbehind]
      rfl), hlength]
    -- with one line end there is nothing to take off
    have htwo : body.length + 2 = r.input.length := hlength
    rw [htwo, ite_self, ite_self]
  | cons behind run =>
    have hbehind : isEol behind = true := hends behind (by simp)
    rw [htrim, trimEnds_eq hstop hends (List.cons_append ..), hlength]
    simp only [hbehind, and_true, hhead]

/-- A read that ends in a newline. -/
theorem trims_ends (service : Service) (hinput : r.input = body ++ c :: run) (hrun : run ≠ [])
    (hlast : r.input.getLast? = some '\n') (hstop : isEol c = false ∨ body = [])
    (hends : ∀ e ∈ run, isEol e = true) : Trims service r ↔ Plain r := by
  have hclosed := closed_of_newline hlast
  have hstale : ¬StaleEnds r := by
    rintro ⟨hone, -⟩
    have hlength := congrArg List.length (hinput.symm.trans hone)
    rw [List.length_append, List.length_cons] at hlength
    have hpos := List.length_pos_iff.mpr hrun
    rw [List.length_singleton] at hlength
    omega
  have hcontent : HasLine r.input → isEol c = false := by
    rintro ⟨e, he, hfalse⟩
    rcases hstop with hc | rfl
    · exact hc
    · rw [hclosed, hinput] at he
      rcases List.mem_cons.mp he with rfl | he
      · exact hfalse
      · exact absurd (hends e he) (by simp [hfalse])
  have hrunEnds : HasLine r.input → lineEnds r.input = run := by
    intro hline
    rw [hinput]
    exact lineEnds_append (hcontent hline) hends
  rw [trims_iff_of service (trimTail_ends hinput hrun hlast hstop hends), Plain,
    and_iff_right hstale]
  split_ifs with hhead
  · obtain ⟨run, rfl⟩ := List.head?_eq_some_iff.mp hhead
    have hsplit : r.input = body ++ [c] ++ ['\n'] ++ run := by
      rw [hinput]
      simp
    have hdropped : ∀ e ∈ run, isEol e = true := fun e he => hends e (List.mem_cons_of_mem _ he)
    have hcount : body.length + 2 = (body ++ [c]).length + 1 := by
      rw [List.length_append, List.length_singleton]
    rw [trimmed_of_split hsplit (Or.inl hdropped) hcount]
    refine iff_of_true (fun hline => ⟨List.getLast?_concat, ?_⟩) ?_
    · have hkept : lineEnds (body ++ [c] ++ ['\n']) = ['\n'] := by
        rw [List.append_assoc]
        exact lineEnds_append (hcontent hline) (by simp [isEol])
      rw [hkept]
      rfl
    · rintro ⟨hline, -, hopen | hreturn⟩
      · exact hopen hclosed
      · rw [hrunEnds hline] at hreturn
        exact absurd hreturn (by simp)
  · rw [trimmed_length]
    obtain ⟨front, hfront⟩ := List.getLast?_eq_some_iff.mp hlast
    have hone : EndsInOne r.input ↔ ¬2 ≤ (lineEnds r.input).count '\n' := by
      rw [hfront]
      exact endsInOne_iff front
    constructor
    · rintro htrimmed ⟨hline, htwo, -⟩
      rw [hclosed] at htwo
      exact hone.mp (htrimmed hline) htwo
    · intro hplain hline
      refine hone.mpr fun htwo => hplain ⟨hline, hclosed.symm ▸ htwo, Or.inr ?_⟩
      rw [hrunEnds hline]
      obtain ⟨next, run, rfl⟩ := List.exists_cons_of_ne_nil hrun
      have hnext : isEol next = true := hends next List.mem_cons_self
      have hnewline : next ≠ '\n' := by simpa using hhead
      simpa [isEol, hnewline] using hnext

end

/-- A read is trimmed as it is to be if it is not a newline alone with two line ends behind it
from before, and does not have empty lines of the kinds that are left. -/
theorem tail_iff (service : Service) (r : Filled) : Trims service r ↔ Plain r := by
  rcases eq_or_ne r.input [] with hempty | hne
  · have htrim : trimTail (r.input ++ r.stale) r.input.length = some (r.input.length : Int) := by
      rw [hempty]
      rfl
    refine trims_unchanged service htrim (not_hasLine_of_ne ?_) (not_staleEnds ?_)
    · simp [hempty]
    · simp [hempty]
  · by_cases hlast : r.input.getLast? = some '\n'
    · obtain ⟨body, c, run, hinput, hstop, hrun⟩ := exists_stop isEol hne
      rcases eq_or_ne run [] with rfl | hends
      · -- the byte before the last is none to stop at, so that it is the only one
        have hc : c = '\n' := by
          rw [hinput] at hlast
          simpa using hlast
        subst hc
        obtain rfl : body = [] := hstop.resolve_left (by decide)
        exact trims_newline service hinput
      · exact trims_ends service hinput hends hlast hstop hrun
    · obtain ⟨body, c, run, hinput, hstop, hrun⟩ := exists_stop (fun c => c ≠ '\n') hne
      exact trims_line service hinput hlast (by simpa using hstop) (by simpa using hrun)

/-- An empty line, and the start of one that is not ended. -/
theorem tail_fails_emptyLine :
    ¬Trims .logkmsgHtcDk ⟨['a', '\n', '\n', 'b'], List.replicate (kbufSize - 4) '\x00',
      by rw [List.length_replicate]; decide, by decide⟩ := by
  rintro ⟨count, hcount, htrimmed⟩
  have htrim : (3 : Int) = count := Option.some.inj hcount
  obtain rfl : count = 3 := by omega
  have hline : HasLine ['a', '\n', '\n', 'b'] := ⟨'a', by decide, rfl⟩
  exact absurd (htrimmed.ends hline).2 (by decide)

/-! ## From the reads to the scan -/

/-- The reads give no more than was asked for. -/
theorem gather_length {len : Nat} :
    ∀ {reads : List (Option CString)} {input all : CString}, input.length ≤ len →
      gather len reads input = some all → all.length ≤ len
  | [], input, all, hle, h => by
    cases h
    exact hle
  | none :: _, _, _, _, h => by cases h
  | some data :: reads, input, all, hle, h => by
    have hgot : (input ++ data.take (len - input.length)).length ≤ len := by
      rw [List.length_append, List.length_take]
      omega
    unfold gather at h
    dsimp only at h
    split_ifs at h
    · cases h
      exact hle
    · cases h
      exact hgot
    · exact gather_length hgot h

/-- `read_from_htc_dk_service (kbuf, sizeof (kbuf) - 1)`, and `-1` where it fails. -/
def Service.read (service : Service) (kbuf : CString) (reads : List (Option CString)) :
    Option Int :=
  match gather (kbufSize - 1) reads [] with
  | none => some (-1)
  | some input => service.trim (input ++ kbuf.drop input.length) input.length

/-- What the reads leave in `kbuf`. -/
def Filled.after {kbuf input : CString} {reads : List (Option CString)}
    (hkbuf : kbuf.length = kbufSize) (h : gather (kbufSize - 1) reads [] = some input) :
    Filled where
  input := input
  stale := kbuf.drop input.length
  size := by
    have hle := gather_length (Nat.zero_le _) h
    rw [List.length_drop, hkbuf]
    omega
  fits := gather_length (Nat.zero_le _) h

/-- Whatever the service sends, the call returns what the trimming leaves of it. -/
theorem read_trimmed_iff (service : Service) {kbuf input : CString}
    {reads : List (Option CString)} (hkbuf : kbuf.length = kbufSize)
    (h : gather (kbufSize - 1) reads [] = some input) :
    (∃ count : Nat, service.read kbuf reads = some (count : Int) ∧ Trimmed input count) ↔
      Trims service (.after hkbuf h) := by
  have hread : service.read kbuf reads =
      service.trim (input ++ kbuf.drop input.length) input.length := by
    unfold Service.read
    rw [h]
  rw [hread]
  exact Iff.rfl

end AndroidLearn.Logkmsg
