import AndroidLearn.Conf.Conf
import AndroidLearn.Lib.Follow

/-!
# Storages behind symbolic links

`dir_get_storage` of `dir.c` looks for the first of some paths that is there, and goes on
from a symbolic link to what it leads to until it is at no link any more, or at the
storage that is served by FUSE. It does not count the links.

The links are a finite graph (`FileSystem`) that does not change while they are followed.
A path is cut to the buffers of `PATH_MAX` bytes (`cut`). The loop of the source has no
bound, so `followLinks` has fuel, and the call comes to an end if every amount above the
number of the targets gives the same result.

The general part is in `Lib.Follow`: a walk along a function on a finite set ends, or it
comes back to where it has been. `followLinks_eq` is the instance.

Theorem: `resolves_iff` says when the loop comes to its end, and what it returns then: the
first path that is there is followed to a path that is no link, and no path on the way may
lead back to itself.
-/

namespace AndroidLearn.Dir

open Conf Follow

/-! ## The files -/

/-- `PATH_MAX`; a path has a NUL behind it. -/
def pathMax : Nat := 4096

/-- What `readlink` and `access` say of each path. There are finitely many links, and each
leads to a path. -/
structure FileSystem where
  readlink : CString → Option CString
  /-- `access (path, F_OK) == 0` -/
  accessible : CString → Bool
  targets : List CString
  mem_targets : ∀ path target, readlink path = some target → target ∈ targets
  target_fits : ∀ target ∈ targets, target.length < pathMax

/-- `strncpy` into a buffer of `PATH_MAX` bytes and a NUL into its last; `readlink` leaves
room for a NUL too. -/
def cut (path : CString) : CString := path.take (pathMax - 1)

theorem cut_of_fits {path : CString} (h : path.length < pathMax) : cut path = path :=
  List.take_of_length_le (Nat.le_pred_of_lt h)

/-! ## The loops -/

/-- The links that may lead to the phone storage. -/
def htcPhoneStorages : List CString := ["/sdcard".toList]

/-- The links that may lead to the external storage. -/
def htcExternalStorages : List CString := ["/sdcard2".toList, "/sdcard".toList]

/-- The links that may lead to the usb storage. -/
def htcUsbStorages : List CString := ["/mnt/usb".toList]


/-- `realpath [0] ? 0 : -1` -/
def found (realpath : CString) : Int × CString := (if realpath = [] then -1 else 0, realpath)

/-- The loop from a path that `readlink` gave, in at most `fuel` rounds: the `linkpath` it
leaves. -/
def followLinks (fs : FileSystem) (active : Option CString) : Nat → CString → Option CString
  | 0, _ => none
  | fuel + 1, realpath =>
    if active = some realpath then some (cut realpath)
    else
      let linkpath := cut realpath
      match fs.readlink linkpath with
      | none => some linkpath
      | some target => followLinks fs active fuel (cut target)

/-- `dir_get_storage`: what it returns, and the string in `realpath`. -/
def dirGetStorage (fs : FileSystem) (active : Option CString) (fuel : Nat) :
    List CString → Option (Int × CString)
  | [] => some (found [])
  | storage :: storages =>
    match fs.readlink (cut storage) with
    | some target => (followLinks fs active fuel (cut target)).map fun linkpath => found (cut linkpath)
    | none =>
      if fs.accessible storage then some (found (cut storage))
      else dirGetStorage fs active fuel storages

/-! ## The way along the links -/

section Resolve

variable {fs : FileSystem} {active : Option CString} {storages : List CString}
  {path storage target : CString} {fuel : Nat}

/-- Where the loop goes from a path: it stays at the active storage, and where no link is. -/
def nextLink (fs : FileSystem) (active : Option CString) (path : CString) : Option CString :=
  if active = some path then none else fs.readlink path

/-- The storage that is there is a link, and leads to `target` at first. -/
def Leads (fs : FileSystem) (storages : List CString) (target : CString) : Prop :=
  ∃ front storage rest, storages = front ++ storage :: rest ∧
    (∀ s ∈ front, fs.readlink (cut s) = none ∧ fs.accessible s = false) ∧
    fs.readlink (cut storage) = some target

/-- The call comes to an end, and what it finds behind links that are no circle is the
first path that is the active storage or no link. -/
def Resolves (fs : FileSystem) (active : Option CString) (storages : List CString) : Prop :=
  ∃ result, (∀ fuel, fs.targets.length < fuel →
      dirGetStorage fs active fuel storages = some result) ∧
    ∀ target, Leads fs storages target → Once (nextLink fs active) target →
      ∃ path, EndsAt (nextLink fs active) target path ∧ result = found path

/-- A link leads to a target of the file system. -/
theorem nextLink_mem (path target : CString) (h : nextLink fs active path = some target) :
    target ∈ fs.targets := by
  unfold nextLink at h
  split at h
  · cases h
  · exact fs.mem_targets path target h

/-- No path is cut, so the loop goes the way of the links. -/
theorem followLinks_eq (hfits : path.length < pathMax) :
    followLinks fs active fuel path = follow (nextLink fs active) fuel path := by
  induction fuel generalizing path with
  | zero => rfl
  | succ fuel ih =>
    by_cases hactive : active = some path
    · simp only [followLinks, follow, nextLink, if_pos hactive, cut_of_fits hfits]
    · cases hlink : fs.readlink path with
      | none => simp only [followLinks, follow, nextLink, if_neg hactive, cut_of_fits hfits, hlink]
      | some target =>
        have htarget := fs.target_fits target (fs.mem_targets path target hlink)
        simp only [followLinks, follow, if_neg hactive, cut_of_fits hfits, hlink,
          cut_of_fits htarget, ih htarget]
        rw [nextLink, if_neg hactive, hlink]

/-- The way ends at a path that fits. -/
theorem endsAt_fits (hfits : target.length < pathMax) (h : EndsAt (nextLink fs active) target path) :
    path.length < pathMax := by
  obtain ⟨⟨n, hahead⟩, -⟩ := h
  cases n with
  | zero =>
    obtain rfl := Option.some.inj hahead
    exact hfits
  | succ n =>
    rw [ahead_succ] at hahead
    obtain ⟨before, -, hnext⟩ := Option.bind_eq_some_iff.mp hahead
    exact fs.target_fits path (nextLink_mem before path hnext)

/-- A path that is neither a link nor there is passed over. -/
theorem leads_cons (hlink : fs.readlink (cut storage) = none) (habsent : fs.accessible storage = false) :
    Leads fs (storage :: storages) target ↔ Leads fs storages target := by
  constructor
  · rintro ⟨front, other, rest, heq, hfront, htarget⟩
    cases front with
    | nil =>
      obtain ⟨rfl, -⟩ := List.cons.inj heq
      rw [hlink] at htarget
      cases htarget
    | cons s front =>
      obtain ⟨-, rfl⟩ := List.cons.inj heq
      exact ⟨front, other, rest, rfl, fun s hs => hfront s (List.mem_cons_of_mem _ hs), htarget⟩
  · rintro ⟨front, other, rest, rfl, hfront, htarget⟩
    exact ⟨storage :: front, other, rest, rfl,
      List.forall_mem_cons.mpr ⟨⟨hlink, habsent⟩, hfront⟩, htarget⟩

/-- The first link is the one that is followed. -/
theorem leads_link (hlink : fs.readlink (cut storage) = some path) :
    Leads fs (storage :: storages) target ↔ target = path := by
  constructor
  · rintro ⟨front, other, rest, heq, hfront, htarget⟩
    cases front with
    | nil =>
      obtain ⟨rfl, -⟩ := List.cons.inj heq
      rw [hlink] at htarget
      exact (Option.some.inj htarget).symm
    | cons s front =>
      obtain ⟨rfl, -⟩ := List.cons.inj heq
      have hnone := (hfront _ List.mem_cons_self).1
      rw [hlink] at hnone
      cases hnone
  · rintro rfl
    exact ⟨[], storage, storages, rfl, List.forall_mem_nil _, hlink⟩

/-- A path that is there and is no link leads nowhere. -/
theorem not_leads_file (hlink : fs.readlink (cut storage) = none)
    (haccess : fs.accessible storage = true) : ¬ Leads fs (storage :: storages) target := by
  rintro ⟨front, other, rest, heq, hfront, htarget⟩
  cases front with
  | nil =>
    obtain ⟨rfl, -⟩ := List.cons.inj heq
    rw [hlink] at htarget
    cases htarget
  | cons s front =>
    obtain ⟨rfl, -⟩ := List.cons.inj heq
    have habsent := (hfront _ List.mem_cons_self).2
    rw [haccess] at habsent
    cases habsent

theorem not_leads_nil : ¬ Leads fs [] target := by
  rintro ⟨front, other, rest, heq, -⟩
  exact absurd heq.symm (List.append_ne_nil_of_right_ne_nil _ (List.cons_ne_nil _ _))

/-- What a call of `dir_get_storage` does: it returns with a storage that is no link, or
goes on behind one. -/
theorem dirGetStorage_cases (fs : FileSystem) (active : Option CString) (storages : List CString) :
    (∃ result, (∀ fuel, dirGetStorage fs active fuel storages = some result) ∧
        ∀ target, ¬ Leads fs storages target) ∨
      ∃ target, target.length < pathMax ∧ (∀ t, Leads fs storages t ↔ t = target) ∧
        ∀ fuel, dirGetStorage fs active fuel storages =
          (follow (nextLink fs active) fuel target).map found := by
  induction storages with
  | nil => exact .inl ⟨found [], fun fuel => rfl, fun target => not_leads_nil⟩
  | cons storage storages ih =>
    cases hlink : fs.readlink (cut storage) with
    | some target =>
      have hfits := fs.target_fits target (fs.mem_targets _ target hlink)
      refine .inr ⟨target, hfits, fun t => leads_link hlink, fun fuel => ?_⟩
      simp only [dirGetStorage, hlink, cut_of_fits hfits, followLinks_eq hfits]
      refine Option.map_congr fun path hpath => ?_
      rw [cut_of_fits (endsAt_fits hfits (endsAt_of_follow hpath))]
    | none =>
      cases haccess : fs.accessible storage with
      | true =>
        refine .inl ⟨found (cut storage), fun fuel => ?_, fun target => not_leads_file hlink haccess⟩
        simp only [dirGetStorage, hlink, haccess, if_true]
      | false =>
        have hcall (fuel : Nat) : dirGetStorage fs active fuel (storage :: storages) =
            dirGetStorage fs active fuel storages := by
          simp only [dirGetStorage, hlink, haccess, Bool.false_eq_true, if_false]
        simp only [hcall, leads_cons hlink haccess]
        exact ih

/-- A call that returns went no way in circles. -/
theorem once_of_returns {result : Int × CString}
    (h : dirGetStorage fs active fuel storages = some result) (hleads : Leads fs storages target) :
    Once (nextLink fs active) target := by
  rcases dirGetStorage_cases fs active storages with ⟨-, -, hnot⟩ | ⟨first, -, hfirst, hcall⟩
  · exact absurd hleads (hnot target)
  · obtain rfl := (hfirst target).mp hleads
    rw [hcall] at h
    obtain ⟨path, hfollow, -⟩ := Option.map_eq_some_iff.mp h
    exact once_of_endsAt (endsAt_of_follow hfollow)

/-- Without a circle the query returns, and the fuel does not matter. -/
theorem returns_of_once (h : ∀ target, Leads fs storages target → Once (nextLink fs active) target) :
    ∃ result, ∀ fuel, fs.targets.length < fuel →
      dirGetStorage fs active fuel storages = some result := by
  rcases dirGetStorage_cases fs active storages with ⟨result, hcall, -⟩ | ⟨target, -, hleads, hcall⟩
  · exact ⟨result, fun fuel _ => hcall fuel⟩
  · obtain ⟨path, -, hfollow⟩ := follow_of_once nextLink_mem (h target ((hleads target).mpr rfl))
    exact ⟨found path, fun fuel hfuel => by rw [hcall, hfollow fuel hfuel]; rfl⟩

end Resolve

/-- The loop comes to its end, with the path that is to be found, unless a path behind the
links leads back to itself. -/
theorem resolves_iff (fs : FileSystem) (active : Option CString) (storages : List CString) :
    Resolves fs active storages ↔
      ∀ target, Leads fs storages target → Once (nextLink fs active) target := by
  constructor
  · rintro ⟨result, hreturns, -⟩ target ht
    exact once_of_returns (hreturns _ (Nat.lt_succ_self _)) ht
  · intro h
    rcases dirGetStorage_cases fs active storages with
      ⟨result, hcall, hleads⟩ | ⟨target, -, hleads, hcall⟩
    · exact ⟨result, fun fuel _ => hcall fuel, fun target ht => absurd ht (hleads target)⟩
    · have honce := h target ((hleads target).mpr rfl)
      obtain ⟨path, hends, hfollow⟩ := follow_of_once nextLink_mem honce
      refine ⟨found path, fun fuel hfuel => ?_, fun t ht _ => ⟨path, ?_, rfl⟩⟩
      · rw [hcall, hfollow fuel hfuel]
        rfl
      · obtain rfl := (hleads t).mp ht
        exact hends

/-- `/sdcard` is a link to itself. -/
def sdcardCircle : FileSystem where
  readlink path := if path = "/sdcard".toList then some "/sdcard".toList else none
  accessible _ := false
  targets := ["/sdcard".toList]
  mem_targets path target h := by
    split at h
    · exact List.mem_singleton.mpr (Option.some.inj h).symm
    · cases h
  target_fits := List.forall_mem_singleton.mpr (by decide)

/-- The phone storage is looked for forever. -/
theorem resolves_fails_circle :
    ¬ ∀ fs active storages, Resolves fs active storages := by
  intro h
  have hleads : Leads sdcardCircle htcPhoneStorages "/sdcard".toList :=
    ⟨[], "/sdcard".toList, [], rfl, List.forall_mem_nil _, rfl⟩
  obtain ⟨result, hreturns, -⟩ := h sdcardCircle none htcPhoneStorages
  have hloop (fuel : Nat) : followLinks sdcardCircle none fuel "/sdcard".toList = none := by
    induction fuel with
    | zero => rfl
    | succ fuel ih => exact ih
  have hcall := hreturns 2 (Nat.lt_succ_self 1)
  rw [htcPhoneStorages, dirGetStorage] at hcall
  have hnone : (followLinks sdcardCircle none 2 "/sdcard".toList).map
      (fun linkpath => found (cut linkpath)) = some result := hcall
  rw [hloop] at hnone
  cases hnone

end AndroidLearn.Dir
