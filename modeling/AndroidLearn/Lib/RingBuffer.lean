import Mathlib.Data.List.Basic
import Mathlib.Data.Nat.ModEq

/-!
# A ring that keeps the last `n` entries

Entry `k` of all that were ever written goes to slot `k % n`, over the entry `k - n`.
`Keeps n slots xs` says that the last `n` entries of `xs` are in their slots, which
nothing says of the slots that were not written yet.

It is kept by writing one more (`Keeps.push`) and by changing one that is still there
(`Keeps.modify`), and what it is for is `Keeps.get`: one of the last `n` entries is read
back from its slot.
-/

namespace AndroidLearn.RingBuffer

variable {α : Type*} {n : Nat} {slots : List (Option α)} {xs : List α}

/-- Of the entries `xs` the last `n` are in their slots. -/
structure Keeps (n : Nat) (slots : List (Option α)) (xs : List α) : Prop where
  length : slots.length = n
  entry : ∀ k x, xs[k]? = some x → xs.length ≤ k + n → slots[k % n]? = some (some x)
  -- before the first round is over
  unused : ∀ k, xs.length ≤ k → k < n → slots[k]? = some none

theorem keeps_nil : Keeps n (List.replicate n (none : Option α)) [] := by
  refine ⟨List.length_replicate, by simp, fun k _ hk => ?_⟩
  simp [hk]

/-- Two entries in the same slot are a round apart. -/
theorem mod_ne {j k : Nat} (hjk : j < k) (hn : k < j + n) : j % n ≠ k % n := by
  intro heq
  have hdvd : n ∣ k - j := (Nat.modEq_iff_dvd' hjk.le).mp heq
  have hle := Nat.le_of_dvd (by omega) hdvd
  omega

/-- A push keeps the last `n`. -/
theorem Keeps.push (h : Keeps n slots xs) (hn : 0 < n) (x : α) :
    Keeps n (slots.set (xs.length % n) (some x)) (xs ++ [x]) := by
  have hlt : xs.length % n < slots.length := by
    rw [h.length]
    exact Nat.mod_lt _ hn
  refine ⟨by rw [List.length_set, h.length], fun k y hk hle => ?_, fun k hle hk => ?_⟩
  · rw [List.length_append, List.length_singleton] at hle
    by_cases hlast : k = xs.length
    · subst hlast
      obtain rfl : x = y := by simpa using hk
      exact List.getElem?_set_self hlt
    · have hkl : k < xs.length := by
        have := (List.getElem?_eq_some_iff.mp hk).1
        rw [List.length_append, List.length_singleton] at this
        omega
      rw [List.getElem?_append_left hkl] at hk
      rw [List.getElem?_set_ne (mod_ne hkl (by omega)).symm]
      exact h.entry k y hk (by omega)
  · rw [List.length_append, List.length_singleton] at hle
    rw [Nat.mod_eq_of_lt (by omega), List.getElem?_set_ne (by omega)]
    exact h.unused k (by omega) hk

/-- A change commutes with a map that knows it. -/
theorem map_modify {β : Type*} {f : α → α} {g : β → β} {p : α → β} (h : ∀ x, p (f x) = g (p x))
    (k : Nat) : (xs.modify k f).map p = (xs.map p).modify k g := by
  refine List.ext_getElem? fun i => ?_
  rw [List.getElem?_map, List.getElem?_modify, List.getElem?_modify, List.getElem?_map]
  cases xs[i]? with
  | none => rfl
  | some x =>
    by_cases hk : k = i
    · simp [hk, h]
    · simp [hk]

/-- An entry that is still there is changed in its slot. -/
theorem Keeps.modify (h : Keeps n slots xs) (f : α → α) {k : Nat} (hk : k < xs.length)
    (hle : xs.length ≤ k + n) :
    Keeps n (slots.modify (k % n) (Option.map f)) (xs.modify k f) := by
  refine ⟨by rw [List.length_modify, h.length], fun j y hj hjn => ?_, fun j hj hjn => ?_⟩
  · rw [List.length_modify] at hjn
    rw [List.getElem?_modify] at hj ⊢
    obtain ⟨x, hx, rfl⟩ := Option.map_eq_some_iff.mp hj
    have hjl := (List.getElem?_eq_some_iff.mp hx).1
    rw [h.entry j x hx hjn]
    by_cases hkj : k = j
    · subst hkj
      simp
    · have hslot : k % n ≠ j % n := by
        rcases Nat.lt_or_gt_of_ne hkj with hlt | hlt
        · exact mod_ne hlt (by omega)
        · exact (mod_ne hlt (by omega)).symm
      simp [hkj, hslot]
  · rw [List.length_modify] at hj
    rw [List.getElem?_modify, h.unused j hj hjn]
    split <;> rfl

/-- The slots hold `size` entries from `head` on: those of the last round. -/
theorem Keeps.get (h : Keeps n slots xs) {i : Nat} (hi : i < min n xs.length) :
    ∃ x, (xs.drop (xs.length - n))[i]? = some x ∧
      slots[((xs.length - n) % n + i) % n]? = some (some x) := by
  have hlt : xs.length - n + i < xs.length := by omega
  refine ⟨xs[xs.length - n + i], ?_, ?_⟩
  · rw [List.getElem?_drop]
    exact List.getElem?_eq_getElem hlt
  · rw [Nat.mod_add_mod]
    exact h.entry _ _ (List.getElem?_eq_getElem hlt) (by omega)

end AndroidLearn.RingBuffer
