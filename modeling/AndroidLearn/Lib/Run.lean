import Mathlib.Data.List.Basic

/-!
# Runs of a deterministic system under a step condition

`exec s a` is the state after action `a`; a run is the left fold over its list of actions.
`AllSteps exec P s as` says that `P` holds of every action of the run at the state it is
taken in. What comes from outside the system is in the actions, so that a nondeterministic
program is deterministic here.

The rules:
- an invariant that is preserved by the steps meeting a condition holds at the end of
  every run all of whose steps meet it (`AllSteps.invariant`);
- what the invariant implies for one such step holds of every step (`AllSteps.imp`);
- `turns exec f s as` counts the steps that change `f`; a rank that goes down with each of
  them bounds their number (`AllSteps.turns_le`);
- `seen exec see s as` is what is seen at the steps, one after the other; a record in the
  state that each step continues with it holds all of it at the end (`record_eq_seen`).
-/

namespace AndroidLearn.Run

variable {σ : Type*} {α : Type*} {exec : σ → α → σ} {I : σ → Prop} {G P : σ → α → Prop}

/-- `P` holds of every action of the run `as` from `s`, where it is taken. -/
def AllSteps (exec : σ → α → σ) (P : σ → α → Prop) : σ → List α → Prop
  | _, [] => True
  | s, a :: as => P s a ∧ AllSteps exec P (exec s a) as

/-- An invariant of the steps that meet `G` survives a run of such steps. -/
theorem AllSteps.invariant (hstep : ∀ s a, I s → G s a → I (exec s a)) :
    ∀ {as : List α} {s : σ}, I s → AllSteps exec G s as → I (as.foldl exec s)
  | [], _, hI, _ => hI
  | a :: as, s, hI, hG => by
    rw [List.foldl_cons]
    exact AllSteps.invariant hstep (hstep s a hI hG.1) hG.2

/-- Whatever the invariant and `G` give for one step holds of every step. -/
theorem AllSteps.imp (hstep : ∀ s a, I s → G s a → I (exec s a) ∧ P s a) :
    ∀ {as : List α} {s : σ}, I s → AllSteps exec G s as → AllSteps exec P s as
  | [], _, _, _ => trivial
  | a :: as, s, hI, hG => by
    obtain ⟨hI', hP⟩ := hstep s a hI hG.1
    exact ⟨hP, AllSteps.imp hstep hI' hG.2⟩

theorem AllSteps.mono (hGP : ∀ s a, G s a → P s a) {as : List α} {s : σ}
    (h : AllSteps exec G s as) : AllSteps exec P s as :=
  AllSteps.imp (I := fun _ => True) (fun s a _ hG => ⟨trivial, hGP s a hG⟩) trivial h

/-- Two properties of every step are one. -/
theorem AllSteps.and : ∀ {as : List α} {s : σ}, AllSteps exec P s as → AllSteps exec G s as →
    AllSteps exec (fun s a => P s a ∧ G s a) s as
  | [], _, _, _ => trivial
  | _ :: _, _, hP, hG => ⟨⟨hP.1, hG.1⟩, hP.2.and hG.2⟩

instance [∀ s a, Decidable (P s a)] : ∀ (s : σ) (as : List α), Decidable (AllSteps exec P s as)
  | _, [] => .isTrue trivial
  | s, a :: as => haveI := instDecidableAllSteps (exec s a) as; inferInstanceAs (Decidable (_ ∧ _))

/-- Without a condition on the steps. -/
theorem AllSteps.of_invariant (hstep : ∀ s a, I s → I (exec s a) ∧ P s a) :
    ∀ {as : List α} {s : σ}, I s → AllSteps exec P s as
  | [], _, _ => trivial
  | a :: as, s, hI => by
    obtain ⟨hI', hP⟩ := hstep s a hI
    exact ⟨hP, AllSteps.of_invariant hstep hI'⟩

/-- Two properties that agree on every step agree on runs, if the one keeps the invariant
that their agreement needs. -/
theorem AllSteps.congr (hstep : ∀ s a, I s → (P s a ↔ G s a) ∧ (G s a → I (exec s a))) :
    ∀ {as : List α} {s : σ}, I s → (AllSteps exec P s as ↔ AllSteps exec G s as)
  | [], _, _ => Iff.rfl
  | a :: as, s, hI => by
    obtain ⟨hPG, hI'⟩ := hstep s a hI
    rw [AllSteps, AllSteps, hPG]
    exact and_congr_right fun hG => AllSteps.congr hstep (hI' hG)

/-- The number of steps of the run that change `f`. -/
def turns {β : Type*} [DecidableEq β] (exec : σ → α → σ) (f : σ → β) : σ → List α → Nat
  | _, [] => 0
  | s, a :: as => (if f (exec s a) = f s then 0 else 1) + turns exec f (exec s a) as

/-- What falls with every change cannot change more often than its rank allows. -/
theorem AllSteps.turns_le {β : Type*} [DecidableEq β] {f : σ → β} (rank : β → Nat)
    (hstep : ∀ s a, I s → G s a →
      I (exec s a) ∧ (f (exec s a) = f s ∨ rank (f (exec s a)) < rank (f s))) :
    ∀ {as : List α} {s : σ}, I s → AllSteps exec G s as → turns exec f s as ≤ rank (f s)
  | [], _, _, _ => Nat.zero_le _
  | a :: as, s, hI, hG => by
    obtain ⟨hI', hturn⟩ := hstep s a hI hG.1
    have hrest := AllSteps.turns_le rank hstep hI' hG.2
    rw [turns]
    rcases hturn with heq | hlt
    · rw [if_pos heq, Nat.zero_add, ← heq]
      exact hrest
    · split <;> omega

/-- What is seen at the steps of the run, each in the state it is taken in. -/
def seen {β : Type*} (exec : σ → α → σ) (see : σ → α → List β) : σ → List α → List β
  | _, [] => []
  | s, a :: as => see s a ++ seen exec see (exec s a) as

/-- A record that each step continues with what is seen at it. -/
theorem record_eq_seen {β : Type*} {see : σ → α → List β} (record : σ → List β)
    (hstep : ∀ s a, I s → I (exec s a) ∧ record (exec s a) = record s ++ see s a) :
    ∀ {as : List α} {s : σ}, I s → record (as.foldl exec s) = record s ++ seen exec see s as
  | [], _, _ => (List.append_nil _).symm
  | a :: as, s, hI => by
    obtain ⟨hI', hrecord⟩ := hstep s a hI
    rw [List.foldl_cons, record_eq_seen record hstep hI', hrecord, seen, List.append_assoc]

/-- Every step of a run, by its two parts. -/
theorem allSteps_append {as bs : List α} {s : σ} : AllSteps exec P s (as ++ bs) ↔
    AllSteps exec P s as ∧ AllSteps exec P (as.foldl exec s) bs := by
  induction as generalizing s with
  | nil => simp [AllSteps]
  | cons a as ih =>
    rw [List.cons_append, List.foldl_cons, AllSteps, AllSteps, ih, and_assoc]

end AndroidLearn.Run
