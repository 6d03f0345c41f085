import AndroidLearn.Lognet.Sessions
import Mathlib.Data.List.TakeWhile

/-!
# The serial numbers of the sessions

From `lognet.c` and `logsniff.c`: `lognet_get_log_sn`, `lognet_reset_sn`, and what
`lognet_start`, the monitor and the clearing do with the number over a whole history. A
number that has been chosen stays in `sn` until `lognet_reset_sn`. `:stop:` calls that, and
so does the monitor before it restarts a zombie; when it restarts the logger because the
log file disappeared, it does not. A new number is the highest of the table plus one, or 1
after 9999.

A `History` is a state with the events since the last reset. `serialFresh_run` gives the
condition on what came before each start (`Orderly`): the number is reset between a
recorded session and the next, and after a change of the path; there are no more records
than the table holds; and session 1 is gone before session 9999 is. Under it every number
is new (`History.Unrecorded` is the invariant). The converse needs two things more, that
the path is set only while no number is kept and that no clearing drops records it has not
read (`Regular`): then the last record has the number that is kept, and one behind the
table has the number that comes next (`History.Tracked`).
-/

namespace AndroidLearn.Lognet

open Run

/-- The highest number of the records. -/
def highest : List LogSession → Nat
  | [] => 0
  | pls :: records => max pls.sn.toNat (highest records)

section Service

variable (service : Service) (code : String → Char)

/-- The number of a new session is not that of a recorded one. -/
def SerialFresh (s : State) (e : Event) : Prop :=
  ∀ device logging, e = .start device logging →
    ∀ pls ∈ s.recorded service code, pls.sn ≠ (s.step service code e).sn

/-- The condition on one start. -/
structure SerialUnused (s : State) : Prop where
  /-- a number that is kept from an earlier start is not recorded -/
  kept : s.sn ≠ 0 → ∀ pls ∈ s.recorded service code, pls.sn ≠ s.sn
  /-- the next one is not recorded behind what the table holds -/
  next : s.sn = 0 → highest ((s.recorded service code).take sessionCount) < 9999 →
    ∀ pls ∈ (s.recorded service code).drop sessionCount,
      pls.sn.toNat ≠ highest ((s.recorded service code).take sessionCount) + 1
  /-- there is no session 1 any more when the numbers begin again -/
  again : s.sn = 0 → 9999 ≤ highest ((s.recorded service code).take sessionCount) →
    ∀ pls ∈ s.recorded service code, pls.sn ≠ 1

/-! ## The history -/

/-- Is it a start? -/
def Event.isStart : Event → Bool
  | .start _ _ => true
  | _ => false

/-- a start whose session is recorded -/
def Event.isRecorded : Event → Bool
  | .start _ logging => logging
  | _ => false

/-- Does it change the log path? -/
def Event.isSetPath : Event → Bool
  | .setPath _ => true
  | _ => false

/-- A state, and how it came about since the number was reset. -/
structure History where
  state : State
  /-- the events since the last `lognet_reset_sn`, or since the beginning -/
  since : List Event

/-- Nothing has happened yet. -/
def History.init (logPath : String) : History := ⟨.init logPath, []⟩

/-- An event, and what has happened since the last reset. -/
def History.step (h : History) (e : Event) : History :=
  { state := h.state.step service code e
    since := match e with
      | .resetSn => []
      | e => h.since ++ [e] }

/-- There was a start since, so that its number is kept. -/
def History.Keeps (h : History) : Prop := ∃ e ∈ h.since, e.isStart = true

/-- The log path is still that of the start which chose the number. -/
def History.Stays (h : History) : Prop :=
  ∀ e ∈ h.since.dropWhile fun e => !e.isStart, e.isSetPath = false

/-- How a start is to come about. -/
structure Orderly (h : History) : Prop where
  /-- between the start of a session that is recorded and this one the number is reset -/
  reset : ∀ e ∈ h.since, e.isRecorded = false
  /-- the number is reset, too, between a start and this one when the log path was changed -/
  stays : h.Stays
  /-- a number is chosen from no more records than the table holds -/
  room : ¬ h.Keeps → (h.state.recorded service code).length ≤ sessionCount
  /-- session 1 was cleared before session 9999 makes the numbers begin again -/
  wrap : ¬ h.Keeps → (∃ pls ∈ h.state.recorded service code, pls.sn = 9999) →
    ∀ pls ∈ h.state.recorded service code, pls.sn ≠ 1

/-- The condition on one event. -/
def OrderlyStart (h : History) (e : Event) : Prop :=
  ∀ device logging, e = .start device logging → Orderly service code h

/-- The path is set when no number is kept, and no clearing drops a record unread. -/
def Regular (h : History) (e : Event) : Prop :=
  (∀ logPath, e = .setPath logPath → ¬ h.Keeps) ∧ FitsTable service code h.state e

/-! ## The number of one start -/

/-- No record has a higher number than the highest. -/
theorem le_highest {records : List LogSession} {pls : LogSession} (h : pls ∈ records) :
    pls.sn.toNat ≤ highest records := by
  induction records with
  | nil => exact absurd h List.not_mem_nil
  | cons first records ih =>
    unfold highest
    rcases List.mem_cons.mp h with rfl | h
    · exact Nat.le_max_left _ _
    · exact Nat.le_trans (ih h) (Nat.le_max_right _ _)

/-- The highest is one of them. -/
theorem highest_le {records : List LogSession} {n : Nat} (h : ∀ pls ∈ records, pls.sn.toNat ≤ n) :
    highest records ≤ n := by
  induction records with
  | nil => exact Nat.zero_le n
  | cons first records ih =>
    unfold highest
    exact Nat.max_le.mpr
      ⟨h _ List.mem_cons_self, ih fun pls hpls => h pls (List.mem_cons_of_mem _ hpls)⟩

/-- The loop of `get_log_sn`. -/
theorem toNat_foldl_sn {records : List LogSession} (h : ∀ pls ∈ records, pls.sn.toNat ≤ 9999)
    (sn : UInt16) (hsn : 1 ≤ sn.toNat) :
    (records.foldl (fun sn pls => if sn ≤ pls.sn then pls.sn + 1 else sn) sn).toNat =
      max sn.toNat (highest records + 1) := by
  induction records generalizing sn with
  | nil => exact (Nat.max_eq_left hsn).symm
  | cons pls records ih =>
    have hpls := h pls List.mem_cons_self
    -- numbers up to 9999 are far from the end of a short
    have hsucc : (pls.sn + 1).toNat = pls.sn.toNat + 1 := by
      rw [UInt16.toNat_add, UInt16.toNat_one]
      exact Nat.mod_eq_of_lt (by omega)
    have hrest : ∀ p ∈ records, p.sn.toNat ≤ 9999 := fun p hp => h p (List.mem_cons_of_mem _ hp)
    rw [List.foldl_cons]
    unfold highest
    split
    next hle =>
      have hle' := UInt16.le_iff_toNat_le.mp hle
      rw [ih hrest _ (by omega), hsucc]
      omega
    next hlt =>
      have hlt' : pls.sn.toNat < sn.toNat := by
        rw [UInt16.le_iff_toNat_le] at hlt
        omega
      rw [ih hrest _ hsn]
      omega

theorem beyond_iff {sn : UInt16} : 9999 < sn ↔ 9999 < sn.toNat := UInt16.lt_iff_toNat_lt

/-- A number that was given before is given again. -/
theorem getLogSn_kept {sn : UInt16} (hsn : sn ≠ 0) (hle : sn.toNat ≤ 9999)
    (records : List LogSession) : getLogSn sn records = sn := by
  unfold getLogSn
  have hlt : ¬ 9999 < sn := by
    rw [beyond_iff]
    omega
  rw [if_neg hsn, if_neg]
  exact fun h => h.elim hsn hlt

/-- The number that is given behind a reset. -/
theorem toNat_getLogSn_zero {records : List LogSession} (hstamped : ∀ pls ∈ records, Stamped pls)
    (hle : ∀ pls ∈ records, pls.sn.toNat ≤ 9999) :
    (getLogSn 0 records).toNat = if highest (records.take sessionCount) < 9999 then
      highest (records.take sessionCount) + 1 else 1 := by
  have htable : ∀ pls ∈ records.take sessionCount, pls.sn.toNat ≤ 9999 :=
    fun pls hpls => hle pls (List.mem_of_mem_take hpls)
  have hfold := toNat_foldl_sn htable 1 (Nat.le_refl 1)
  have hhigh := highest_le htable
  unfold getLogSn
  rw [if_pos rfl, readTimestampes_eq hstamped]
  dsimp only
  rw [UInt16.toNat_one] at hfold
  split
  next hagain =>
    have hbig : 9999 < highest (records.take sessionCount) + 1 := by
      rcases hagain with hzero | hbig
      · rw [hzero, UInt16.toNat_zero] at hfold
        omega
      · rw [beyond_iff, hfold] at hbig
        omega
    rw [if_neg (by omega), UInt16.toNat_one]
  next hfine =>
    have hsmall : ¬ 9999 < highest (records.take sessionCount) + 1 := by
      intro hbig
      refine hfine (.inr ?_)
      rw [beyond_iff, hfold]
      omega
    rw [hfold, if_pos (by omega)]
    omega

/-! ## Every run -/

/-- The numbers in use are from 1 to 9999. -/
structure State.Numbered (s : State) : Prop where
  stamped : s.Stamped
  sn_le : s.sn.toNat ≤ 9999
  recorded_le : ∀ name, ∀ pls ∈ s.files name, pls.sn.toNat ≤ 9999

variable {service code} {s : State}

/-- No number above 9999 is given. -/
theorem getLogSn_le (sn : UInt16) (records : List LogSession) :
    (getLogSn sn records).toNat ≤ 9999 := by
  unfold getLogSn
  extract_lets chosen
  split
  next => exact Nat.le_of_ble_eq_true rfl
  next hfine =>
    rw [beyond_iff, not_or] at hfine
    omega

/-- No such number is written. -/
theorem State.write_le (h : ∀ name, ∀ pls ∈ s.files name, pls.sn.toNat ≤ 9999)
    {records : List LogSession} (hrecords : ∀ pls ∈ records, pls.sn.toNat ≤ 9999) (name : String) :
    ∀ pls ∈ (s.write service code records).files name, pls.sn.toNat ≤ 9999 := by
  unfold State.write
  dsimp only
  by_cases hname : name = service.sessionFile code s.logPath
  · subst hname
    rw [Function.update_self]
    exact hrecords
  · rw [Function.update_of_ne hname]
    exact h name

/-- No step leaves one. -/
theorem State.Numbered.step (h : s.Numbered) (e : Event) : (s.step service code e).Numbered := by
  refine ⟨h.stamped.step e, ?_, ?_⟩
  · cases e with
    | start device logging =>
      unfold State.step
      dsimp only
      split <;> exact getLogSn_le _ _
    | resetSn => exact Nat.zero_le _
    | autoclear count logLimit => exact h.sn_le
    | setPath logPath => exact h.sn_le
  · cases e with
    | start device logging =>
      unfold State.step
      dsimp only
      split
      · refine State.write_le h.recorded_le fun pls hpls => ?_
        rcases List.mem_append.mp hpls with hpls | hpls
        · exact h.recorded_le _ pls hpls
        · rw [List.mem_singleton.mp hpls]
          exact getLogSn_le _ _
      · exact h.recorded_le
    | resetSn => exact h.recorded_le
    | autoclear count logLimit =>
      refine State.write_le h.recorded_le fun pls hpls => ?_
      obtain ⟨pls', hpls', -, hsn⟩ := mem_autoclear hpls
      rw [← hsn]
      exact h.recorded_le _ pls' hpls'
    | setPath logPath => exact h.recorded_le

/-- The number behind a start. -/
theorem step_sn_start (device : Device) (logging : Bool) :
    (s.step service code (.start device logging)).sn =
      getLogSn s.sn (s.recorded service code) := by
  unfold State.step
  dsimp only
  split <;> rfl

/-- A start is fresh when the number it gives is not recorded. -/
theorem serialFresh_iff_unused (h : s.Numbered) (device : Device) (logging : Bool) :
    SerialFresh service code s (.start device logging) ↔ SerialUnused service code s := by
  have hfresh : SerialFresh service code s (.start device logging) ↔
      ∀ pls ∈ s.recorded service code, pls.sn ≠ getLogSn s.sn (s.recorded service code) := by
    rw [← step_sn_start device logging]
    exact ⟨fun hall => hall device logging rfl, fun hall _ _ _ => hall⟩
  rw [hfresh]
  have hle : ∀ pls ∈ s.recorded service code, pls.sn.toNat ≤ 9999 := h.recorded_le _
  have hstamped : ∀ pls ∈ s.recorded service code, Stamped pls := h.stamped _
  by_cases hsn : s.sn = 0
  -- a number is chosen: one above the table, or 1 again
  · have hnew := toNat_getLogSn_zero hstamped hle
    have hne : ∀ pls : LogSession, pls.sn ≠ getLogSn s.sn (s.recorded service code) ↔
        pls.sn.toNat ≠ if highest ((s.recorded service code).take sessionCount) < 9999 then
          highest ((s.recorded service code).take sessionCount) + 1 else 1 := by
      intro pls
      rw [hsn, ← hnew, Ne, Ne, UInt16.toNat_inj]
    simp only [hne]
    refine ⟨fun hall => ⟨fun hkept => absurd hsn hkept, fun _ hhigh pls hpls => ?_,
      fun _ hhigh pls hpls => ?_⟩, fun hunused pls hpls => ?_⟩
    · have hnot := hall pls (List.mem_of_mem_drop hpls)
      rwa [if_pos hhigh] at hnot
    · have hnot := hall pls hpls
      rw [if_neg (by omega)] at hnot
      exact fun hone => hnot (hone ▸ rfl)
    · split
      next hhigh =>
        rw [← List.take_append_drop sessionCount (s.recorded service code)] at hpls
        rcases List.mem_append.mp hpls with htake | hdrop
        -- in the table nothing is above the highest, so only what is behind it can clash
        · have hbelow := le_highest htake
          omega
        · exact hunused.next hsn hhigh pls hdrop
      next hhigh =>
        have hone := hunused.again hsn (by omega) pls hpls
        exact fun heq => hone (UInt16.toNat_inj.mp heq)
  · rw [getLogSn_kept hsn h.sn_le]
    exact ⟨fun hall => ⟨fun _ => hall, fun hzero => absurd hzero hsn, fun hzero => absurd hzero hsn⟩,
      fun hunused => hunused.kept hsn⟩

/-! ## What is kept over a run -/

/-- The highest number is that of a record. -/
theorem highest_mem {records : List LogSession} (h : highest records ≠ 0) :
    ∃ pls ∈ records, pls.sn.toNat = highest records := by
  induction records with
  | nil => exact absurd rfl h
  | cons first records ih =>
    unfold highest at h ⊢
    rcases Nat.le_total first.sn.toNat (highest records) with hle | hle
    · rw [Nat.max_eq_right hle] at h ⊢
      obtain ⟨pls, hpls, heq⟩ := ih h
      exact ⟨pls, List.mem_cons_of_mem _ hpls, heq⟩
    · rw [Nat.max_eq_left hle]
      exact ⟨first, List.mem_cons_self, rfl⟩

/-- It follows from the numbers. -/
theorem highest_congr {a b : List LogSession}
    (h : a.map LogSession.sn = b.map LogSession.sn) : highest a = highest b := by
  induction a generalizing b with
  | nil =>
    rw [List.map_eq_nil_iff.mp h.symm]
  | cons x a ih =>
    cases b with
    | nil => exact absurd h (by simp)
    | cons y b =>
      obtain ⟨hxy, hab⟩ := List.cons.inj h
      unfold highest
      rw [hxy, ih hab]

/-- A number that is chosen is not 0. -/
theorem getLogSn_ne_zero (sn : UInt16) (records : List LogSession) : getLogSn sn records ≠ 0 := by
  unfold getLogSn
  extract_lets chosen
  split
  next => decide
  next hfine => exact fun hzero => hfine (.inl hzero)

section History

variable {h : History}

/-- One event more since the reset. -/
theorem History.keeps_append (e : Event) :
    (∃ e' ∈ h.since ++ [e], e'.isStart = true) ↔ h.Keeps ∨ e.isStart = true := by
  unfold History.Keeps
  simp only [List.mem_append, List.mem_singleton]
  constructor
  · rintro ⟨e', he' | rfl, hstart⟩
    · exact .inl ⟨e', he', hstart⟩
    · exact .inr hstart
  · rintro (⟨e', he', hstart⟩ | hstart)
    · exact ⟨e', .inl he', hstart⟩
    · exact ⟨e, .inr rfl, hstart⟩

/-- What comes behind the first start grows with each event. -/
theorem History.Keeps.dropWhile_append (hkeeps : h.Keeps) (e : Event) :
    (h.since ++ [e]).dropWhile (fun e => !e.isStart) =
      (h.since.dropWhile fun e => !e.isStart) ++ [e] := by
  obtain ⟨e', he', hstart⟩ := hkeeps
  rw [List.dropWhile_append, if_neg]
  rw [List.isEmpty_iff, List.dropWhile_eq_nil_iff]
  intro hall
  have hnot := hall e' he'
  rw [hstart] at hnot
  exact absurd hnot (by decide)

/-- The last event does not count when there was no start before it. -/
theorem History.dropWhile_append_of_not_keeps (hkeeps : ¬ h.Keeps) (e : Event) :
    (h.since ++ [e]).dropWhile (fun e => !e.isStart) = [e].dropWhile fun e => !e.isStart := by
  refine List.dropWhile_append_of_pos fun e' he' => ?_
  cases hstart : e'.isStart with
  | false => rfl
  | true => exact absurd ⟨e', he', hstart⟩ hkeeps

/-- A start that was recorded keeps the number. -/
theorem History.keeps_of_recorded {e : Event} (he : e ∈ h.since) (hrec : e.isRecorded = true) :
    h.Keeps := by
  refine ⟨e, he, ?_⟩
  cases e with
  | start device logging => rfl
  | resetSn => exact hrec
  | autoclear count logLimit => exact hrec
  | setPath logPath => exact hrec

variable (service code)

/-- What holds of the number in every run. -/
structure History.Numbered (h : History) : Prop where
  numbered : h.state.Numbered
  keeps : h.state.sn ≠ 0 ↔ h.Keeps

/-- Once there was a start, a number is kept until it is reset. -/
theorem History.Numbered.step {service : Service} {code : String → Char} (hs : h.Numbered)
    (e : Event) : (h.step service code e).Numbered := by
  refine ⟨hs.numbered.step e, ?_⟩
  cases e with
  | start device logging =>
    have hkeeps : (h.step service code (.start device logging)).Keeps :=
      (History.keeps_append _).mpr (.inr rfl)
    have hsn : (h.state.step service code (.start device logging)).sn ≠ 0 := by
      rw [step_sn_start]
      exact getLogSn_ne_zero _ _
    exact ⟨fun _ => hkeeps, fun _ => hsn⟩
  | resetSn =>
    refine ⟨fun hne => absurd rfl hne, fun hkeeps => ?_⟩
    obtain ⟨e, he, -⟩ := hkeeps
    exact absurd he List.not_mem_nil
  | autoclear count logLimit =>
    have hkeeps := History.keeps_append (h := h) (.autoclear count logLimit)
    exact hs.keeps.trans ⟨fun hk => hkeeps.mpr (.inl hk), fun hk => (hkeeps.mp hk).elim id nofun⟩
  | setPath logPath =>
    have hkeeps := History.keeps_append (h := h) (.setPath logPath)
    exact hs.keeps.trans ⟨fun hk => hkeeps.mpr (.inl hk), fun hk => (hkeeps.mp hk).elim id nofun⟩

/-- No session has the number that is kept before the start that is recorded with it. -/
def History.Unrecorded (h : History) : Prop :=
  h.Keeps → (∀ e ∈ h.since, e.isRecorded = false) → h.Stays →
    ∀ pls ∈ h.state.recorded service code, pls.sn ≠ h.state.sn

variable {service code}

/-- What a clearing leaves in the file. -/
theorem recorded_autoclear (s : State) (count : LogSession → UInt64) (logLimit : Int) :
    (s.step service code (.autoclear count logLimit)).recorded service code =
      (autoclear count logLimit (s.recorded service code)).sessions := by
  simp [State.step, State.write, State.recorded]

/-- In an orderly history the number about to be given is not recorded. -/
theorem Orderly.unused (hs : h.Numbered) (hun : h.Unrecorded service code)
    (ho : Orderly service code h) : SerialUnused service code h.state := by
  have hnot : h.state.sn = 0 → ¬ h.Keeps := fun hzero hkeeps => hs.keeps.mpr hkeeps hzero
  refine ⟨fun hkept => hun (hs.keeps.mp hkept) ho.reset ho.stays, fun hzero _ pls hpls => ?_,
    fun hzero hhigh => ?_⟩
  · rw [List.drop_eq_nil_of_le (ho.room (hnot hzero))] at hpls
    exact absurd hpls List.not_mem_nil
  · have hhigh' : highest ((h.state.recorded service code).take sessionCount) ≠ 0 := by omega
    obtain ⟨pls, hpls, heq⟩ := highest_mem hhigh'
    have hmem := List.mem_of_mem_take hpls
    have hle := hs.numbered.recorded_le _ pls hmem
    refine ho.wrap (hnot hzero) ⟨pls, hmem, UInt16.toNat_inj.mp ?_⟩
    rw [heq] at hle ⊢
    exact Nat.le_antisymm hle hhigh

/-- An orderly step keeps the numbers apart. -/
theorem History.Unrecorded.step (hs : h.Numbered) (hun : h.Unrecorded service code) (e : Event)
    (he : OrderlyStart service code h e) : (h.step service code e).Unrecorded service code := by
  intro hkeeps hrec hstays
  cases e with
  | start device logging =>
    have hunused := (he device logging rfl).unused hs hun
    have hlogging : logging = false :=
      hrec (.start device logging) (List.mem_append_right _ List.mem_cons_self)
    subst hlogging
    exact (serialFresh_iff_unused hs.numbered device false).mpr hunused device false rfl
  | resetSn =>
    obtain ⟨e, he', -⟩ := hkeeps
    exact absurd he' List.not_mem_nil
  | autoclear count logLimit =>
    have hk : h.Keeps := ((History.keeps_append _).mp hkeeps).elim id nofun
    have hbefore := hun hk (fun e' he' => hrec e' (List.mem_append_left _ he')) fun e' he' =>
      hstays e' ((hk.dropWhile_append _).symm ▸ List.mem_append_left _ he')
    intro pls hpls
    have hpls : pls ∈ (h.state.step service code (.autoclear count logLimit)).recorded service
      code := hpls
    rw [recorded_autoclear] at hpls
    obtain ⟨pls', hpls', -, hsn⟩ := mem_autoclear hpls
    exact hsn ▸ hbefore pls' hpls'
  | setPath logPath =>
    have hk : h.Keeps := ((History.keeps_append _).mp hkeeps).elim id nofun
    have hset := hstays (.setPath logPath)
      ((hk.dropWhile_append _).symm ▸ List.mem_append_right _ List.mem_cons_self)
    exact Bool.noConfusion hset

/-! ## What regular histories show of the number -/

/-- Only the first 100 records are looked at. -/
theorem getLogSn_zero_append {a : List LogSession} (ha : sessionCount ≤ a.length)
    (b : List LogSession) : getLogSn 0 (a ++ b) = getLogSn 0 a := by
  unfold getLogSn readTimestampes
  rw [List.take_append_of_le_length ha]

/-- A clearing leaves one record. -/
theorem clearBySize_ne_nil (freeSize totalSize : UInt64) {sessions : List LogSession}
    (h : sessions ≠ []) : (clearBySize freeSize totalSize sessions).2 ≠ [] := by
  induction totalSize, sessions using clearBySize.induct freeSize with
  | case1 total pls next rest hlt total' unlinked left heq ih =>
    rw [clearBySize, if_pos hlt]
    exact ih (List.cons_ne_nil _ _)
  | case2 total pls next rest hle =>
    rw [clearBySize, if_neg hle]
    exact List.cons_ne_nil _ _
  | case3 total sessions hshort =>
    rw [clearBySize]
    · exact h
    · exact hshort

/-- A clearing leaves the last numbers of the table, and at least one. -/
theorem autoclear_numbers {records : List LogSession} (hstamped : ∀ pls ∈ records, Stamped pls)
    (count : LogSession → UInt64) (logLimit : Int) :
    (autoclear count logLimit records).sessions.map LogSession.sn <:+
        (records.take sessionCount).map LogSession.sn ∧
      (records ≠ [] → (autoclear count logLimit records).sessions ≠ []) := by
  have hnumbers : (countSizes count (readTimestampes records)).map LogSession.sn =
      (records.take sessionCount).map LogSession.sn := by
    rw [countSizes_map count fun _ _ => rfl, readTimestampes_eq hstamped]
  constructor
  · rw [← hnumbers]
    exact List.IsSuffix.map _ ⟨_, clearBySize_append _ _ _⟩
  · intro hne
    refine clearBySize_ne_nil _ _ fun hnil => ?_
    rw [hnil, List.map_nil] at hnumbers
    have htake := List.map_eq_nil_iff.mp hnumbers.symm
    rw [List.take_eq_nil_iff] at htake
    exact htake.elim (by decide) hne

/-- It leaves the last one. -/
theorem autoclear_last {records : List LogSession} (hstamped : ∀ pls ∈ records, Stamped pls)
    (hle : records.length ≤ sessionCount) (count : LogSession → UInt64) (logLimit : Int) :
    ((autoclear count logLimit records).sessions.map LogSession.sn).getLast? =
      (records.map LogSession.sn).getLast? := by
  obtain ⟨⟨removed, heq⟩, hne⟩ := autoclear_numbers hstamped count logLimit
  rw [List.take_of_length_le hle] at heq
  by_cases hnil : records = []
  · subst hnil
    rw [List.map_nil, List.append_eq_nil_iff] at heq
    rw [heq.2, List.map_nil]
  · rw [← heq, List.getLast?_append_of_ne_nil]
    exact fun h => hne hnil (List.map_eq_nil_iff.mp h)

/-- A clearing that leaves a full table has removed nothing. -/
theorem getLogSn_autoclear {records : List LogSession} (hstamped : ∀ pls ∈ records, Stamped pls)
    (hrecorded : ∀ pls ∈ records, pls.sn.toNat ≤ 9999) {count : LogSession → UInt64}
    {logLimit : Int} (hfull : sessionCount ≤ (autoclear count logLimit records).sessions.length) :
    getLogSn 0 (autoclear count logLimit records).sessions = getLogSn 0 records := by
  have hsuffix := (autoclear_numbers hstamped count logLimit).1
  have hlength := hsuffix.length_le
  rw [List.length_map, List.length_map, List.length_take] at hlength
  have hsame := hsuffix.eq_of_length (by
    rw [List.length_map, List.length_map, List.length_take]
    omega)
  have hstamped' : ∀ pls ∈ (autoclear count logLimit records).sessions, Stamped pls := by
    intro pls hpls
    obtain ⟨pls', hpls', htimestamp, -⟩ := mem_autoclear hpls
    unfold Stamped
    rw [← htimestamp]
    exact hstamped pls' hpls'
  have hle' : ∀ pls ∈ (autoclear count logLimit records).sessions, pls.sn.toNat ≤ 9999 := by
    intro pls hpls
    obtain ⟨pls', hpls', -, hsn⟩ := mem_autoclear hpls
    exact hsn ▸ hrecorded pls' hpls'
  rw [← UInt16.toNat_inj, toNat_getLogSn_zero hstamped' hle',
    toNat_getLogSn_zero hstamped hrecorded, List.take_of_length_le (by omega), highest_congr hsame]

variable (service code)

/-- What a regular history shows of the number that is kept, and of the records. -/
structure History.Tracked (h : History) : Prop where
  stays : h.Stays
  last : (∃ e ∈ h.since, e.isRecorded = true) →
    ((h.state.recorded service code).map LogSession.sn).getLast? = some h.state.sn
  full : h.Keeps → (∀ e ∈ h.since, e.isRecorded = false) →
    sessionCount ≤ (h.state.recorded service code).length →
      h.state.sn = getLogSn 0 (h.state.recorded service code)
  /-- the number of a session behind the table was the next one, and still is -/
  behind : ∀ name pls, (h.state.files name)[sessionCount]? = some pls →
    pls.sn = getLogSn 0 (h.state.files name)

variable {service code}

/-- If the number of a start is new, then the start is orderly. -/
theorem History.Tracked.orderly (ht : h.Tracked service code) (hs : h.Numbered) {device : Device}
    {logging : Bool} (hfresh : SerialFresh service code h.state (.start device logging)) :
    Orderly service code h := by
  have hgiven : ∀ pls ∈ h.state.recorded service code,
      pls.sn ≠ getLogSn h.state.sn (h.state.recorded service code) := by
    rw [← step_sn_start device logging]
    exact hfresh device logging rfl
  have hzero : ¬ h.Keeps → h.state.sn = 0 := fun hkeeps => by
    by_contra hne
    exact hkeeps (hs.keeps.mp hne)
  have hroom : ¬ h.Keeps → (h.state.recorded service code).length ≤ sessionCount := by
    intro hkeeps
    by_contra hlong
    obtain ⟨pls, hpls⟩ : ∃ pls, (h.state.recorded service code)[sessionCount]? = some pls :=
      ⟨_, List.getElem?_eq_getElem (by omega)⟩
    refine hgiven pls (List.mem_of_getElem? hpls) ?_
    rw [hzero hkeeps]
    exact ht.behind _ pls hpls
  refine ⟨fun e he => ?_, ht.stays, hroom, fun hkeeps => ?_⟩
  · by_contra hrec
    have hrec : e.isRecorded = true := by simpa using hrec
    have hkept := hs.keeps.mpr (History.keeps_of_recorded he hrec)
    have hlast := List.mem_of_getLast? (ht.last ⟨e, he, hrec⟩)
    obtain ⟨pls, hpls, heq⟩ := List.mem_map.mp hlast
    refine hgiven pls hpls ?_
    rw [getLogSn_kept hkept hs.numbered.sn_le]
    exact heq
  · rintro ⟨pls, hpls, heq⟩
    refine ((serialFresh_iff_unused hs.numbered device logging).mp hfresh).again (hzero hkeeps) ?_
    rw [List.take_of_length_le (hroom hkeeps)]
    have hhigh := le_highest hpls
    rw [heq] at hhigh
    exact hhigh

/-- The path stays as it is. -/
theorem History.Stays.append (hstays : h.Stays) {e : Event} (he : e.isSetPath = false) :
    ∀ e' ∈ (h.since ++ [e]).dropWhile (fun e => !e.isStart), e'.isSetPath = false := by
  intro e' he'
  by_cases hkeeps : h.Keeps
  · rw [hkeeps.dropWhile_append, List.mem_append, List.mem_singleton] at he'
    rcases he' with he' | rfl
    · exact hstays e' he'
    · exact he
  · rw [History.dropWhile_append_of_not_keeps hkeeps] at he'
    rw [List.mem_singleton.mp ((List.dropWhile_sublist _).subset he')]
    exact he

/-- A property of the records, file by file. -/
theorem State.write_files (s : State) (records : List LogSession) {p : List LogSession → Prop}
    (hrecords : p records) (hfiles : ∀ name, p (s.files name)) (name : String) :
    p ((s.write service code records).files name) := by
  unfold State.write
  dsimp only
  by_cases hname : name = service.sessionFile code s.logPath
  · subst hname
    rw [Function.update_self]
    exact hrecords
  · rw [Function.update_of_ne hname]
    exact hfiles name

/-- The number given to an orderly start is the next one of a full table. -/
theorem History.Tracked.next (ht : h.Tracked service code) (hs : h.Numbered)
    (ho : Orderly service code h)
    (hfull : sessionCount ≤ (h.state.recorded service code).length) :
    getLogSn h.state.sn (h.state.recorded service code) =
      getLogSn 0 (h.state.recorded service code) := by
  by_cases hzero : h.state.sn = 0
  · rw [hzero]
  · rw [getLogSn_kept hzero hs.numbered.sn_le]
    exact ht.full (hs.keeps.mp hzero) ho.reset hfull

/-- A start is tracked. -/
theorem History.Tracked.start (ht : h.Tracked service code) (hs : h.Numbered) {device : Device}
    {logging : Bool} (ho : Orderly service code h) :
    (h.step service code (.start device logging)).Tracked service code := by
  have hsn : (h.state.step service code (.start device logging)).sn =
      getLogSn h.state.sn (h.state.recorded service code) := step_sn_start device logging
  refine ⟨ht.stays.append rfl, fun hrec => ?_, fun _ hrec hfull => ?_, ?_⟩
  · cases logging with
    | true =>
      have hfile := recorded_start service code h.state device
      unfold History.step
      dsimp only
      rw [hsn, hfile, List.map_append, List.map_singleton, List.getLast?_append,
        List.getLast?_singleton]
      rfl
    | false =>
      obtain ⟨e, he, hrec⟩ := hrec
      rcases List.mem_append.mp he with he | he
      · rw [ho.reset e he] at hrec
        exact Bool.noConfusion hrec
      · rw [List.mem_singleton.mp he] at hrec
        exact Bool.noConfusion hrec
  · have hlogging : logging = false :=
      hrec (.start device logging) (List.mem_append_right _ List.mem_cons_self)
    subst hlogging
    exact hsn.trans (ht.next hs ho hfull)
  · cases logging with
    | false => exact ht.behind
    | true =>
      refine State.write_files _ (p := fun records => ∀ pls, records[sessionCount]? = some pls →
        pls.sn = getLogSn 0 records) _ (fun pls hpls => ?_) ht.behind
      change (h.state.recorded service code ++ [newSession device _])[sessionCount]? =
        some pls at hpls
      have hfull : sessionCount ≤ (h.state.recorded service code).length := by
        have hlt := (List.getElem?_eq_some_iff.mp hpls).1
        rw [List.length_append, List.length_singleton] at hlt
        exact Nat.le_of_lt_succ hlt
      change pls.sn = getLogSn 0 (h.state.recorded service code ++ _)
      rw [getLogSn_zero_append hfull]
      rcases Nat.lt_or_ge sessionCount (h.state.recorded service code).length with hlt | hge
      · refine ht.behind _ pls ?_
        rw [List.getElem?_append_left hlt] at hpls
        exact hpls
      · rw [List.getElem?_append_right hge, Nat.sub_eq_zero_of_le hfull] at hpls
        rw [← ht.next hs ho hfull, ← Option.some.inj hpls]
        rfl

/-- Every event of a regular, orderly history is tracked. -/
theorem History.Tracked.step (ht : h.Tracked service code) (hs : h.Numbered) {e : Event}
    (hregular : Regular service code h e) (ho : OrderlyStart service code h e) :
    (h.step service code e).Tracked service code := by
  cases e with
  | start device logging => exact ht.start hs (ho device logging rfl)
  | resetSn =>
    refine ⟨fun e he => absurd he List.not_mem_nil, ?_, ?_, ht.behind⟩
    · rintro ⟨e, he, -⟩
      exact absurd he List.not_mem_nil
    · rintro ⟨e, he, -⟩
      exact absurd he List.not_mem_nil
  | autoclear count logLimit =>
    have hle := hregular.2 count logLimit rfl
    have hstamped : ∀ pls ∈ h.state.recorded service code, Stamped pls := hs.numbered.stamped _
    have hsmall : ∀ pls ∈ h.state.recorded service code, pls.sn.toNat ≤ 9999 :=
      hs.numbered.recorded_le _
    have hfile : (h.state.step service code (.autoclear count logLimit)).recorded service code =
        (autoclear count logLimit (h.state.recorded service code)).sessions :=
      recorded_autoclear h.state count logLimit
    refine ⟨ht.stays.append rfl, fun hrec => ?_, fun hkeeps hrec hfull => ?_, ?_⟩
    · obtain ⟨e, he, hrec⟩ := hrec
      have hmem : e ∈ h.since := by
        rcases List.mem_append.mp he with he | he
        · exact he
        · rw [List.mem_singleton.mp he] at hrec
          exact Bool.noConfusion hrec
      unfold History.step
      dsimp only
      rw [hfile, autoclear_last hstamped hle]
      exact ht.last ⟨e, hmem, hrec⟩
    · have hk : h.Keeps := ((History.keeps_append _).mp hkeeps).elim id nofun
      unfold History.step at hfull ⊢
      dsimp only at hfull ⊢
      rw [hfile] at hfull ⊢
      have hall : sessionCount ≤ (h.state.recorded service code).length := by
        have hlength := (autoclear_numbers hstamped count logLimit).1.length_le
        rw [List.length_map, List.length_map, List.length_take] at hlength
        omega
      rw [getLogSn_autoclear hstamped hsmall hfull]
      exact ht.full hk (fun e he => hrec e (List.mem_append_left _ he)) hall
    · refine State.write_files _ (p := fun records => ∀ pls, records[sessionCount]? = some pls →
        pls.sn = getLogSn 0 records) _ (fun pls hpls => ?_) ht.behind
      have hlt := (List.getElem?_eq_some_iff.mp hpls).1
      have hlength := (autoclear_numbers hstamped count logLimit).1.length_le
      rw [List.length_map, List.length_map, List.length_take] at hlength
      omega
  | setPath logPath =>
    have hnot := hregular.1 logPath rfl
    refine ⟨?_, fun hrec => ?_, fun hkeeps => ?_, ht.behind⟩
    · unfold History.Stays History.step
      dsimp only
      rw [History.dropWhile_append_of_not_keeps hnot]
      exact fun e he => absurd he List.not_mem_nil
    · obtain ⟨e, he, hrec⟩ := hrec
      rcases List.mem_append.mp he with he | he
      · exact absurd (History.keeps_of_recorded he hrec) hnot
      · rw [List.mem_singleton.mp he] at hrec
        exact Bool.noConfusion hrec
    · exact absurd (((History.keeps_append _).mp hkeeps).elim id nofun) hnot

end History

variable (service code)

/-- The number given to a session is new when each start comes about as it should. In a
history that sets the path only when no number is kept and clears no more records than the
table holds, it is new only then. -/
theorem serialFresh_run (logPath : String) (events : List Event) :
    (AllSteps (History.step service code) (OrderlyStart service code) (.init logPath) events →
      AllSteps (History.step service code) (fun h => SerialFresh service code h.state)
        (.init logPath) events) ∧
    (AllSteps (History.step service code) (Regular service code) (.init logPath) events →
      AllSteps (History.step service code) (fun h => SerialFresh service code h.state)
        (.init logPath) events →
      AllSteps (History.step service code) (OrderlyStart service code) (.init logPath) events) := by
  have hinit : (History.init logPath).Numbered := by
    refine ⟨⟨.init logPath, Nat.zero_le _, fun _ _ hmem => absurd hmem List.not_mem_nil⟩,
      fun hne => absurd rfl hne, ?_⟩
    rintro ⟨e, he, -⟩
    exact absurd he List.not_mem_nil
  constructor
  · refine AllSteps.imp (I := fun h => h.Numbered ∧ h.Unrecorded service code)
      (fun h e ⟨hs, hun⟩ ho => ⟨⟨hs.step e, hun.step hs e ho⟩, ?_⟩) ⟨hinit, ?_⟩
    · rintro ⟨e, he, -⟩
      exact absurd he List.not_mem_nil
    · rintro device logging rfl
      exact (serialFresh_iff_unused hs.numbered device logging).mpr
        ((ho device logging rfl).unused hs hun) device logging rfl
  · intro hregular hfresh
    refine AllSteps.imp (I := fun h => h.Numbered ∧ h.Tracked service code)
      (G := fun h e => Regular service code h e ∧ SerialFresh service code h.state e)
      (fun h e ⟨hs, ht⟩ ⟨hregular, hfresh⟩ => ?_) ⟨hinit, ?_⟩ (hregular.and hfresh)
    · have ho : OrderlyStart service code h e := by
        rintro device logging rfl
        exact ht.orderly hs hfresh
      exact ⟨⟨hs.step e, ht.step hs hregular ho⟩, ho⟩
    · refine ⟨fun e he => absurd he List.not_mem_nil, ?_, ?_, fun name pls hpls => ?_⟩
      · rintro ⟨e, he, -⟩
        exact absurd he List.not_mem_nil
      · rintro ⟨e, he, -⟩
        exact absurd he List.not_mem_nil
      · exact absurd hpls (by simp [History.init, State.init])

/-- Right behind a reset a history is orderly, if the file has room and no last number. -/
theorem Orderly.of_reset {h : History} (hsince : h.since = [])
    (hroom : (h.state.recorded service code).length ≤ sessionCount)
    (hwrap : ∀ pls ∈ h.state.recorded service code, pls.sn ≠ 9999) : Orderly service code h where
  reset e he := absurd (hsince ▸ he) List.not_mem_nil
  stays e he := absurd ((List.dropWhile_sublist _).subset he) (hsince ▸ List.not_mem_nil)
  room _ := hroom
  wrap _ hlast := by
    obtain ⟨pls, hpls, heq⟩ := hlast
    exact absurd heq (hwrap pls hpls)

/-- Two sessions with a `:stop:` between them, a clearing, and a third. -/
theorem serialFresh_run_stopped :
    AllSteps (History.step lognet fun _ => 'P')
      (fun h => SerialFresh lognet (fun _ => 'P') h.state) (.init "/data/htclog/")
      [.start ⟨[], [], [], []⟩ true, .resetSn, .start ⟨[], [], [], []⟩ true,
        .autoclear (fun _ => 1) 500, .resetSn, .start ⟨[], [], [], []⟩ true] := by
  refine (serialFresh_run lognet (fun _ => 'P') _ _).1 ⟨?_, ?_, ?_, ?_, ?_, ?_, trivial⟩
  all_goals
    intro device logging heq
    cases heq
  · exact .of_reset _ _ rfl (by decide) (by decide)
  · exact .of_reset _ _ rfl (by decide +kernel) (by decide +kernel)
  · exact .of_reset _ _ rfl (by decide +kernel) (by decide +kernel)

/-- The log file disappears, and the monitor stops and starts the logger. -/
theorem serialFresh_fails_restart :
    ¬ ∀ (service : Service) (code : String → Char) (logPath : String) (events : List Event),
      AllSteps (History.step service code) (fun h => SerialFresh service code h.state)
        (.init logPath) events := by
  intro h
  obtain ⟨-, hlast, -⟩ := h lognet (fun _ => 'P') "/data/htclog/"
    [.start ⟨[], [], [], []⟩ true, .start ⟨[], [], [], []⟩ true]
  have hfirst := recorded_start lognet (fun _ => 'P') (.init "/data/htclog/") ⟨[], [], [], []⟩
  refine hlast _ _ rfl (newSession ⟨[], [], [], []⟩ 1) ?_ ?_
  · unfold History.step
    dsimp only
    unfold History.init
    rw [hfirst]
    exact List.mem_append_right _ (List.mem_singleton.mpr rfl)
  · unfold History.step History.init
    dsimp only
    rw [step_sn_start, step_sn_start]
    exact (getLogSn_kept (by decide) (by decide) _).symm

end Service

end AndroidLearn.Lognet
