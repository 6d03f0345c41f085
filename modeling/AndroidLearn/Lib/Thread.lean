import Mathlib.Data.List.Basic

/-!
# Threads that share a state through atomic calls

A `Prog` is the rest of a thread's program: it has finished with a value, or it makes a
call and goes on with the answer. `exec` runs one call on the shared state; between two
calls of a thread any other thread may make its own. A thread is then analysed by itself,
in the style of rely and guarantee:

- `Prog.Only A p`: whatever the answers, `p` makes only calls in `A`;
- `Prog.Along A B Q p`: as long as the answers are within `B`, `p` makes only calls in
  `A`, and `Q` holds of its value at the end. What the others may do to the state between
  two calls enters as what the answers can be.

Both follow the program: there is a rule for a call (`Only.calls`, `along_call`), for a
sequence (`Only.bind`, `Only.bind_along`) and for a loop over a list (`only_foldlM`).

`Prog.run` is the thread on its own, without others in between; a property that the calls
in `A` keep survives it (`Only.run`).
-/

namespace AndroidLearn.Thread

variable {C : Type} {R : C → Type} {α β σ : Type}

/-- The rest of a thread's program over the calls `C` with answers `R`. -/
inductive Prog (C : Type) (R : C → Type) (α : Type) where
  | ret (a : α)
  | call (c : C) (k : R c → Prog C R α)

namespace Prog

/-- A program, and another that takes its result. -/
def bind : Prog C R α → (α → Prog C R β) → Prog C R β
  | ret a, f => f a
  | call c k, f => call c fun r => (k r).bind f

instance : Monad (Prog C R) where
  pure := ret
  bind := bind

/-- The program that makes one call and returns its answer. -/
def invoke (c : C) : Prog C R (R c) := call c ret

@[simp] theorem pure_eq (a : α) : (pure a : Prog C R α) = ret a := rfl

@[simp] theorem ret_bind (a : α) (f : α → Prog C R β) : ret a >>= f = f a := rfl

@[simp] theorem call_bind (c : C) (k : R c → Prog C R α) (f : α → Prog C R β) :
    call c k >>= f = call c fun r => k r >>= f := rfl

@[simp] theorem invoke_bind (c : C) (f : R c → Prog C R β) : invoke c >>= f = call c f := rfl

/-! ## Running one thread by itself -/

variable (exec : (c : C) → σ → R c × σ)

/-- A program runs on its own. -/
def run : Prog C R α → σ → α × σ
  | ret a, s => (a, s)
  | call c k, s => (k (exec c s).1).run (exec c s).2

@[simp] theorem run_ret (a : α) (s : σ) : (ret a : Prog C R α).run exec s = (a, s) := rfl

@[simp] theorem run_call (c : C) (k : R c → Prog C R α) (s : σ) :
    (call c k).run exec s = (k (exec c s).1).run exec (exec c s).2 := rfl

@[simp] theorem run_bind (p : Prog C R α) (f : α → Prog C R β) (s : σ) :
    (p >>= f).run exec s = (f (p.run exec s).1).run exec (p.run exec s).2 := by
  induction p generalizing s with
  | ret a => rfl
  | call c k ih => exact ih (exec c s).1 (exec c s).2

/-- What every call keeps, the program keeps. -/
theorem run_keeps {I : σ → Prop} (hI : ∀ c s, I s → I (exec c s).2) (p : Prog C R α) {s : σ}
    (hs : I s) : I (p.run exec s).2 := by
  induction p generalizing s with
  | ret a => exact hs
  | call c k ih => exact ih _ (hI c s hs)

/-- The calls that the program makes by itself. -/
def calls : Prog C R α → σ → List C
  | ret _, _ => []
  | call c k, s => c :: (k (exec c s).1).calls (exec c s).2

@[simp] theorem calls_ret (a : α) (s : σ) : (ret a : Prog C R α).calls exec s = [] := rfl

@[simp] theorem calls_call (c : C) (k : R c → Prog C R α) (s : σ) :
    (call c k).calls exec s = c :: (k (exec c s).1).calls exec (exec c s).2 := rfl

@[simp] theorem calls_bind (p : Prog C R α) (f : α → Prog C R β) (s : σ) :
    (p >>= f).calls exec s =
      p.calls exec s ++ (f (p.run exec s).1).calls exec (p.run exec s).2 := by
  induction p generalizing s with
  | ret a => rfl
  | call c k ih =>
    rw [call_bind, calls_call, calls_call, ih]
    rfl

/-! ## The calls a program can make -/

/-- Every call of a program is of this kind. -/
def Only (A : C → Prop) : Prog C R α → Prop
  | ret _ => True
  | call c k => A c ∧ ∀ r, (k r).Only A

variable {exec} {A : C → Prop} {p : Prog C R α} {f : α → Prog C R β}

/-- Two programs in a row. -/
theorem Only.bind (hp : p.Only A) (hf : ∀ a, (f a).Only A) : (p >>= f).Only A := by
  induction p with
  | ret a => exact hf a
  | call c k ih => exact ⟨hp.1, fun r => ih r (hp.2 r)⟩

/-- The calls that are made are of this kind. -/
theorem Only.calls (hp : p.Only A) (s : σ) : ∀ c ∈ p.calls exec s, A c := by
  induction p generalizing s with
  | ret a => exact fun c hc => absurd hc List.not_mem_nil
  | call c k ih => exact List.forall_mem_cons.mpr ⟨hp.1, ih _ (hp.2 _) _⟩

/-- What every call in `A` keeps, the whole program keeps. -/
theorem Only.run {I : σ → Prop} (hp : p.Only A) (hI : ∀ c s, A c → I s → I (exec c s).2)
    {s : σ} (hs : I s) : I (p.run exec s).2 := by
  induction p generalizing s with
  | ret a => exact hs
  | call c k ih => exact ih _ (hp.2 _) (hI c s hp.1 hs)

/-- A loop whose turns make such calls. -/
theorem only_foldlM {ι : Type} {g : α → ι → Prog C R α} (hg : ∀ a i, (g a i).Only A) :
    ∀ (l : List ι) (a : α), (l.foldlM g a).Only A
  | [], _ => trivial
  | i :: l, a => by
    rw [List.foldlM_cons]
    exact (hg a i).bind fun b => only_foldlM hg l b

/-! ## The calls a program can make along some answers -/

variable {B : (c : C) → R c → Prop} {Q : α → Prop} {Q' : β → Prop}

/-- Calls of this kind, with answers of that kind, and then the result. -/
def Along (A : C → Prop) (B : (c : C) → R c → Prop) (Q : α → Prop) : Prog C R α → Prop
  | ret a => Q a
  | call c k => A c ∧ ∀ r, B c r → (k r).Along A B Q

/-- Two programs in a row. -/
theorem Along.bind (hp : p.Along A B fun a => (f a).Along A B Q') : (p >>= f).Along A B Q' := by
  induction p with
  | ret a => exact hp
  | call c k ih => exact ⟨hp.1, fun r hr => ih r (hp.2 r hr)⟩

theorem along_call {c : C} {g : R c → Prog C R β} (hc : A c)
    (hg : ∀ r, B c r → (g r).Along A B Q') : (invoke c >>= g).Along A B Q' := ⟨hc, hg⟩

/-- A program whose calls are all in `A` needs no account of the answers. -/
theorem Only.along (hp : p.Only A) (hQ : ∀ a, Q a) : p.Along A B Q := by
  induction p with
  | ret a => exact hQ a
  | call c k ih => exact ⟨hp.1, fun r _ => ih r (hp.2 r)⟩

theorem Only.bind_along (hp : p.Only A) (hf : ∀ a, (f a).Along A B Q') :
    (p >>= f).Along A B Q' := Along.bind (hp.along hf)

end Prog

end AndroidLearn.Thread
