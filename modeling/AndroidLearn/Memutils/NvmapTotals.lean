import AndroidLearn.Memutils.Nvmap
import Mathlib.Algebra.BigOperators.Group.List.Basic

/-!
# The graphics memory of a process, from `nvmap`

What `getNVProcessGraphicsMemory` of `MemoryMeasureHelper.cpp` returns for a text of the
driver, which `Nvmap` has as a loop over the sections. What surfaceflinger has too is not
to be counted to a process: the right figure is the sum of the sizes of the process'
allocations whose handles are in no section of surfaceflinger.

A section of surfaceflinger that comes after the loop has seen both is not read, and of a
handle that a process has twice only the last size is kept, while both are in the total.

Theorem: `graphicsMemory_iff` says when neither matters, for every list of sections and
wherever those of the process and of surfaceflinger are in it.
-/

namespace AndroidLearn.Memutils

open Conf

/-! ## What is to be counted -/

/-- The handles of a client. -/
def Client.handles (c : Client) : List Nat := c.allocations.map Allocation.handle

/-- The handles in the sections of surfaceflinger. -/
def surfaceflingerHandles (clients : List Client) : List Nat :=
  (clients.filter Client.isSurfaceflinger).flatMap Client.handles

/-- The sizes of the allocations whose handle is one of these. -/
def sizeIn (handles : List Nat) (allocations : List Allocation) : Nat :=
  ((allocations.filter fun a => a.handle ∈ handles).map Allocation.size).sum

/-- The handles of surfaceflinger that have been read behind the section between `front` and
`back`. -/
def seenHandles (front back : List Client) : List Nat :=
  if front.any Client.isSurfaceflinger then surfaceflingerHandles front
  else (back.find? Client.isSurfaceflinger).toList.flatMap Client.handles

/-- The total of a client, without the allocations that surfaceflinger has too. -/
def graphicsMemory (clients : List Client) (c : Client) : Int :=
  ((c.total : Int) - sizeIn (surfaceflingerHandles clients) c.allocations) * 2 ^ 10

/-! ## The sums -/

section Sums

variable {allocations : List Allocation} {handles handles' : List Nat}

/-- The sizes of the allocations that are the last of their handle. -/
def lastIn (handles : List Nat) : List Allocation → Nat
  | [] => 0
  | a :: allocations =>
    (if a.handle ∈ handles ∧ a.handle ∉ allocations.map Allocation.handle then a.size else 0) +
      lastIn handles allocations

/-- A handle is entered when it is allocated. -/
theorem mem_entries {h : Nat} (allocations : List Allocation) :
    (h : Int) ∈ (allocations.map fun a => ((a.handle : Int), (a.size : Int))).map Prod.fst ↔
      h ∈ allocations.map Allocation.handle := by
  rw [List.map_map]
  constructor
  · intro hmem
    obtain ⟨a, ha, heq⟩ := List.mem_map.mp hmem
    exact List.mem_map.mpr ⟨a, ha, Int.ofNat_inj.mp heq⟩
  · intro hmem
    obtain ⟨a, ha, rfl⟩ := List.mem_map.mp hmem
    exact List.mem_map.mpr ⟨a, ha, rfl⟩

/-- A value at one of distinct keys. -/
theorem sum_single {keys : List Int} (hnd : keys.Nodup) (key x : Int) :
    (keys.map fun k => if k = key then x else 0).sum = if key ∈ keys then x else 0 := by
  induction keys with
  | nil => rfl
  | cons k keys ih =>
    obtain ⟨hk, hnd⟩ := List.nodup_cons.mp hnd
    rw [List.map_cons, List.sum_cons, ih hnd]
    by_cases heq : k = key
    · subst heq
      rw [if_pos rfl, if_neg hk, if_pos List.mem_cons_self, Int.add_zero]
    · rw [if_neg heq, Int.zero_add]
      have hiff : key ∈ k :: keys ↔ key ∈ keys := List.mem_cons.trans (or_iff_right (Ne.symm heq))
      simp only [hiff]

/-- What a vector of the allocations has under the keys. -/
theorem sum_lookup {keys : List Int} (hnd : keys.Nodup)
    (hkeys : ∀ h : Nat, (h : Int) ∈ keys ↔ h ∈ handles) (allocations : List Allocation) :
    (keys.map fun k => ((KeyedVector.empty.addAll
      (allocations.map fun a => ((a.handle : Int), (a.size : Int)))).lookup k).getD 0).sum =
        lastIn handles allocations := by
  induction allocations with
  | nil =>
    have hzero : (keys.map fun _ => (0 : Int)).sum = 0 := by simp
    exact hzero
  | cons a allocations ih =>
    have hpoint (k : Int) : ((KeyedVector.empty.addAll
        ((a :: allocations).map fun a => ((a.handle : Int), (a.size : Int)))).lookup k).getD 0 =
          (if k = a.handle then
              (if a.handle ∈ allocations.map Allocation.handle then 0 else (a.size : Int)) else 0) +
            ((KeyedVector.empty.addAll
              (allocations.map fun a => ((a.handle : Int), (a.size : Int)))).lookup k).getD 0 := by
      rw [List.map_cons, KeyedVector.addAll, List.foldl_cons, ← KeyedVector.addAll]
      by_cases hmem : k ∈ (allocations.map fun a => ((a.handle : Int), (a.size : Int))).map Prod.fst
      · rw [KeyedVector.lookup_addAll_of_mem (w := KeyedVector.empty) hmem]
        by_cases hk : k = a.handle
        · rw [hk, mem_entries] at hmem
          rw [if_pos hk, if_pos hmem, Int.zero_add]
        · rw [if_neg hk, Int.zero_add]
      · rw [KeyedVector.lookup_addAll_of_notMem hmem, KeyedVector.lookup_addAll_of_notMem hmem]
        by_cases hk : k = a.handle
        · rw [hk, mem_entries] at hmem
          rw [if_pos hk, if_neg hmem, hk]
          have hself : (KeyedVector.empty.add (a.handle : Int) (a.size : Int)).lookup a.handle =
              some (a.size : Int) := KeyedVector.lookup_insert_self
          rw [hself]
          exact (Int.add_zero _).symm
        · rw [if_neg hk, Int.zero_add]
          exact congrArg (Option.getD · 0) (KeyedVector.lookup_insert_ne hk)
    simp only [hpoint]
    rw [List.sum_map_add, ih, sum_single hnd, lastIn]
    by_cases hmem : a.handle ∈ allocations.map Allocation.handle
    · rw [if_pos hmem, ite_self, if_neg fun h => h.2 hmem]
      norm_cast
    · rw [if_neg hmem]
      by_cases hin : a.handle ∈ handles
      · rw [if_pos ((hkeys _).mpr hin), if_pos ⟨hin, hmem⟩]
        norm_cast
      · rw [if_neg (mt (hkeys _).mp hin), if_neg fun h => hin h.1]
        norm_cast

/-- One allocation in front. -/
theorem sizeIn_cons (handles : List Nat) (a : Allocation) (allocations : List Allocation) :
    sizeIn handles (a :: allocations) =
      (if a.handle ∈ handles then a.size else 0) + sizeIn handles allocations := by
  unfold sizeIn
  rw [List.filter_cons]
  by_cases hin : a.handle ∈ handles
  · rw [if_pos hin, if_pos (by simpa using hin), List.map_cons, List.sum_cons]
  · rw [if_neg hin, if_neg (by simpa using hin), Nat.zero_add]

/-- Among these allocations, one whose handle is to be counted is counted: it is read of
surfaceflinger, and no later allocation has its handle. -/
def CountedOnce (seen handles : List Nat) (allocations : List Allocation) : Prop :=
  ∀ before a after, allocations = before ++ a :: after → a.size ≠ 0 → a.handle ∈ handles →
    a.handle ∈ seen ∧ ∀ b ∈ after, b.handle ≠ a.handle

theorem countedOnce_cons {a : Allocation} : CountedOnce handles handles' (a :: allocations) ↔
    (a.size ≠ 0 → a.handle ∈ handles' →
      a.handle ∈ handles ∧ a.handle ∉ allocations.map Allocation.handle) ∧
      CountedOnce handles handles' allocations := by
  have hnotMem : a.handle ∉ allocations.map Allocation.handle ↔
      ∀ b ∈ allocations, b.handle ≠ a.handle := by
    rw [List.mem_map, not_exists]
    exact ⟨fun h b hb heq => h b ⟨hb, heq⟩, fun h b hb => h b hb.1 hb.2⟩
  constructor
  · intro h
    refine ⟨fun hsize hin => ?_, fun before b after heq => ?_⟩
    · have hfirst := h [] a allocations rfl hsize hin
      exact ⟨hfirst.1, hnotMem.mpr hfirst.2⟩
    · exact h (a :: before) b after (by rw [heq]; rfl)
  · rintro ⟨hfirst, hrest⟩ before b after heq hsize hin
    cases before with
    | nil =>
      obtain ⟨rfl, rfl⟩ := List.cons.inj heq
      exact (hfirst hsize hin).imp_right hnotMem.mp
    | cons a' before =>
      obtain ⟨rfl, rfl⟩ := List.cons.inj heq
      exact hrest before b after rfl hsize hin

/-- What is taken off is no more than what is shared. -/
theorem lastIn_le (hsub : handles ⊆ handles') (allocations : List Allocation) :
    lastIn handles allocations ≤ sizeIn handles' allocations := by
  induction allocations with
  | nil => exact Nat.le_refl 0
  | cons a allocations ih =>
    rw [lastIn, sizeIn_cons]
    refine Nat.add_le_add ?_ ih
    split
    · next h => rw [if_pos (hsub h.1)]
    · exact Nat.zero_le _

/-- It is as much when each shared handle is counted once. -/
theorem lastIn_eq_iff (hsub : handles ⊆ handles') (allocations : List Allocation) :
    lastIn handles allocations = sizeIn handles' allocations ↔
      CountedOnce handles handles' allocations := by
  induction allocations with
  | nil =>
    refine iff_of_true rfl fun before a after heq => ?_
    exact absurd heq.symm (List.append_ne_nil_of_right_ne_nil before (List.cons_ne_nil a after))
  | cons a allocations ih =>
    have hle := lastIn_le hsub allocations
    rw [countedOnce_cons, ← ih, lastIn, sizeIn_cons]
    by_cases hlast : a.handle ∈ handles ∧ a.handle ∉ allocations.map Allocation.handle
    · rw [if_pos hlast, if_pos (hsub hlast.1), Nat.add_left_cancel_iff]
      exact ⟨fun h => ⟨fun _ _ => hlast, h⟩, fun h => h.2⟩
    · rw [if_neg hlast, Nat.zero_add]
      by_cases hin : a.handle ∈ handles'
      · rw [if_pos hin]
        constructor
        · intro h
          refine ⟨fun hsize => absurd ?_ hsize, ?_⟩
          · omega
          · omega
        · rintro ⟨hfirst, hrest⟩
          have hsize : a.size = 0 := by
            by_contra hsize
            exact hlast (hfirst hsize hin)
          rw [hsize, Nat.zero_add, hrest]
      · rw [if_neg hin, Nat.zero_add]
        exact ⟨fun h => ⟨fun _ hmem => absurd hmem hin, h⟩, fun h => h.2⟩

end Sums

/-! ## The result -/

section Result

variable {front back : List Client} {c : Client}

/-- The sum over the shared handles. -/
theorem foldl_addShared (v : KeyedVector Int Int) (keys : List Int) (init : Int) :
    keys.foldl (addShared v) init = init + (keys.map fun k => (v.lookup k).getD 0).sum := by
  induction keys generalizing init with
  | nil => exact (Int.add_zero init).symm
  | cons k keys ih =>
    rw [List.foldl_cons, ih, List.map_cons, List.sum_cons, ← Int.add_assoc, addShared]
    cases v.lookup k with
    | none => rw [Option.getD_none, Int.add_zero]
    | some size => rfl

/-- What is kept of surfaceflinger when the file has been read. -/
def seenEntries (front back : List Client) : List (Int × Int) :=
  (front.filter Client.isSurfaceflinger).flatMap Client.entries ++
    (if front.any Client.isSurfaceflinger then []
      else (back.find? Client.isSurfaceflinger).toList.flatMap Client.entries)

/-- Which handles were seen when the result is made. -/
theorem mem_seenEntries {h : Nat} :
    (h : Int) ∈ (seenEntries front back).map Prod.fst ↔ h ∈ seenHandles front back := by
  have hflatMap (clients : List Client) : (h : Int) ∈ (clients.flatMap Client.entries).map Prod.fst ↔
      h ∈ clients.flatMap Client.handles := by
    rw [List.map_flatMap, List.mem_flatMap, List.mem_flatMap]
    exact exists_congr fun d => and_congr_right fun _ => mem_entries d.allocations
  unfold seenEntries seenHandles
  by_cases hany : front.any Client.isSurfaceflinger = true
  · rw [if_pos hany, if_pos hany, List.append_nil]
    exact hflatMap _
  · have hnone : front.filter Client.isSurfaceflinger = [] := by
      rw [List.filter_eq_nil_iff]
      intro d hd hsf
      exact hany (List.any_eq_true.mpr ⟨d, hd, hsf⟩)
    rw [if_neg hany, if_neg hany, hnone, List.flatMap_nil, List.nil_append]
    exact hflatMap _

/-- The result: the total, less what is shared. -/
theorem result_eq (hother : c.isSurfaceflinger = false)
    (hone : ∀ d ∈ front ++ back, d.pid ≠ c.pid) :
    (NvReader.init.runClients c.pid (front ++ c :: back)).result =
      ((c.total : Int) - lastIn (seenHandles front back) c.allocations) * 2 ^ 10 := by
  have hpid : ∀ d ∈ front ++ back, (d.pid : Int) ≠ c.pid := fun d hd heq =>
    hone d hd (Int.ofNat_inj.mp heq)
  obtain ⟨hfront, hback⟩ := List.forall_mem_append.mp hpid
  obtain ⟨flag, hrun⟩ := @runClients_front c.pid .init front rfl hfront (c :: back)
  rw [hrun, NvReader.runClients, if_neg fun h => Bool.false_ne_true h.2]
  unfold NvReader.enter
  rw [hother, if_neg Bool.false_ne_true, if_pos rfl]
  obtain ⟨found, flag', hrest⟩ := @runClients_back c.pid
    (NvReader.mk (KeyedVector.empty.addAll
      ((front.filter Client.isSurfaceflinger).flatMap Client.entries))
      (KeyedVector.empty.addAll c.entries) (front.any Client.isSurfaceflinger) true .targetPid
      c.total) back rfl hback
  refine (congrArg NvReader.result hrest).trans ?_
  have hkeys (h : Nat) : (h : Int) ∈ (KeyedVector.empty.addAll (seenEntries front back)).keys ↔
      h ∈ seenHandles front back := by
    rw [KeyedVector.mem_keys_addAll, ← mem_seenEntries]
    exact or_iff_right List.not_mem_nil
  have hsum := sum_lookup (KeyedVector.keys_nodup _) hkeys c.allocations
  unfold NvReader.result
  dsimp only
  rw [addAll_addAll, foldl_addShared, Int.zero_add]
  exact congrArg (fun x : Int => ((c.total : Int) - x) * 2 ^ 10) hsum

/-- Handles that were seen are handles of the shared client. -/
theorem seenHandles_subset :
    seenHandles front back ⊆ surfaceflingerHandles (front ++ c :: back) := by
  unfold seenHandles surfaceflingerHandles
  intro h hmem
  split at hmem
  · rw [List.filter_append, List.flatMap_append]
    exact List.mem_append_left _ hmem
  · cases hfind : back.find? Client.isSurfaceflinger with
    | none =>
      rw [hfind] at hmem
      cases hmem
    | some d =>
      rw [hfind] at hmem
      obtain ⟨d', hd', hh⟩ := List.mem_flatMap.mp hmem
      obtain rfl : d' = d := List.mem_singleton.mp hd'
      have hmemd : d' ∈ front ++ c :: back :=
        List.mem_append_right _ (List.mem_cons_of_mem c (List.mem_of_find?_eq_some hfind))
      exact List.mem_flatMap.mpr ⟨d', List.mem_filter.mpr ⟨hmemd, List.find?_some hfind⟩, hh⟩

/-- The result is the total of the client without what surfaceflinger has too exactly when
each allocation of the client that surfaceflinger has too, and that has a size, is
counted once. -/
theorem graphicsMemory_iff (titles : List PlainLine) (front back : List Client) (c : Client)
    (hother : c.isSurfaceflinger = false) (hone : ∀ d ∈ front ++ back, d.pid ≠ c.pid) :
    getNVProcessGraphicsMemory c.pid (some (nvmap titles (front ++ c :: back))) =
        graphicsMemory (front ++ c :: back) c ↔
      CountedOnce (seenHandles front back) (surfaceflingerHandles (front ++ c :: back))
        c.allocations := by
  rw [getNVProcessGraphicsMemory_eq, result_eq hother hone, graphicsMemory,
    ← lastIn_eq_iff seenHandles_subset]
  constructor
  · intro h
    have hcancel := Int.eq_of_mul_eq_mul_right (by decide) h
    omega
  · intro h
    rw [h]

end Result

/-! ## Small files -/

/-- An allocation of 5 kB. -/
def smallAllocation (handle : CString) (hex : IsNumber 16 handle) (hshort : handle.length ≤ 10) :
    Allocation where
  pidText := "0".toList
  sizeText := "5".toList
  flagText := "2".toList
  handleText := handle
  pid_decimal := ⟨List.cons_ne_nil _ _, List.all_eq_true.mp rfl⟩
  size_decimal := ⟨List.cons_ne_nil _ _, List.all_eq_true.mp rfl⟩
  flag_hex := ⟨List.cons_ne_nil _ _, List.all_eq_true.mp rfl⟩
  handle_hex := hex
  short := ⟨by decide, by decide, by decide, hshort⟩

def allocationA : Allocation :=
  smallAllocation "a".toList ⟨List.cons_ne_nil _ _, List.all_eq_true.mp rfl⟩ (by decide)

def allocationB : Allocation :=
  smallAllocation "b".toList ⟨List.cons_ne_nil _ _, List.all_eq_true.mp rfl⟩ (by decide)

/-- A section of surfaceflinger. -/
def surfaceflingerWith (allocations : List Allocation) : Client where
  type := "user".toList
  procName := surfaceflingerName
  pidText := "1".toList
  totalText := "5".toList
  allocations := allocations
  others := []
  type_word := isWord_of_all (List.cons_ne_nil _ _) rfl
  procName_word := isWord_of_all (List.cons_ne_nil _ _) rfl
  pid_decimal := ⟨List.cons_ne_nil _ _, List.all_eq_true.mp rfl⟩
  total_decimal := ⟨List.cons_ne_nil _ _, List.all_eq_true.mp rfl⟩
  type_head := fun c hc => by
    obtain rfl : 'u' = c := Option.some.inj hc
    decide
  short := ⟨by decide, by decide, by decide, by decide⟩

/-- The client has B, which the second section of surfaceflinger has. -/
def clientWithB : Client where
  type := "user".toList
  procName := "app".toList
  pidText := "2".toList
  totalText := "5".toList
  allocations := [allocationB]
  others := []
  type_word := (surfaceflingerWith []).type_word
  procName_word := isWord_of_all (List.cons_ne_nil _ _) rfl
  pid_decimal := ⟨List.cons_ne_nil _ _, List.all_eq_true.mp rfl⟩
  total_decimal := ⟨List.cons_ne_nil _ _, List.all_eq_true.mp rfl⟩
  type_head := (surfaceflingerWith []).type_head
  short := ⟨by decide, by decide, by decide, by decide⟩

/-- The second section of surfaceflinger, behind the client's, is not read. -/
theorem graphicsMemory_fails_late :
    ¬ ∀ (titles : List PlainLine) (front back : List Client) (c : Client),
      c.isSurfaceflinger = false → (∀ d ∈ front ++ back, d.pid ≠ c.pid) →
        getNVProcessGraphicsMemory c.pid (some (nvmap titles (front ++ c :: back))) =
          graphicsMemory (front ++ c :: back) c := by
  intro h
  have hone : ∀ d ∈ [surfaceflingerWith [allocationA]] ++ [surfaceflingerWith [allocationB]],
      d.pid ≠ clientWithB.pid := by
    intro d hd
    rcases List.mem_cons.mp hd with rfl | hd
    · decide
    · obtain rfl := List.mem_singleton.mp hd
      decide
  have hresult := h [] _ _ clientWithB rfl hone
  rw [getNVProcessGraphicsMemory_eq, result_eq rfl hone] at hresult
  exact absurd hresult (by decide)

/-- What surfaceflinger has in a section in front of the client's is subtracted. -/
theorem graphicsMemory_shared :
    getNVProcessGraphicsMemory clientWithB.pid
        (some (nvmap [] ([surfaceflingerWith [allocationA, allocationB]] ++ [clientWithB]))) = 0 := by
  have hone : ∀ d ∈ [surfaceflingerWith [allocationA, allocationB]] ++ ([] : List Client),
      d.pid ≠ clientWithB.pid := by
    intro d hd
    obtain rfl := List.mem_singleton.mp hd
    decide
  have hcounted : CountedOnce (seenHandles [surfaceflingerWith [allocationA, allocationB]] [])
      (surfaceflingerHandles ([surfaceflingerWith [allocationA, allocationB]] ++ [clientWithB]))
      clientWithB.allocations :=
    (lastIn_eq_iff seenHandles_subset clientWithB.allocations).mp (by decide)
  have hresult := (graphicsMemory_iff [] [surfaceflingerWith [allocationA, allocationB]] []
    clientWithB rfl hone).mpr hcounted
  exact hresult.trans (by decide)

end AndroidLearn.Memutils
