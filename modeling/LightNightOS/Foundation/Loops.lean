import Mathlib.Data.Set.Insert
import Mathlib.Logic.Function.Basic
import Mathlib.Order.Interval.Set.Defs
import Mathlib.Tactic.Ring

/-!
# Counted loops over arrays

`forLoop n body s` runs `body 0`, …, `body (n - 1)` on a state, as `for (i = 0; i < n; i++)` does.
Two rules carry the proofs: an invariant indexed by the number of iterations done
(`forLoop_invariant`), and a loop over rows and columns as one loop over cells (`forLoop_grid`).
`forLoopM` is the loop whose body may fail; its rule proves that it does not (`forLoopM_invariant`).

`Recorded` is an array that remembers which indices have been stored to. The record is a history: it
does not influence the values, and it says of a loop not what it changes but what it writes.
-/

/-! ### Loops

The number of turns is fixed when a loop begins, as it is in the loops that are modelled with it.
Where a turn may fail, the loop fails with it. -/

/-- `for (i = 0; i < n; i++) body(i)` -/
def forLoop {σ : Type*} : ℕ → (ℕ → σ → σ) → σ → σ
  | 0, _, s => s
  | n + 1, body, s => body n (forLoop n body s)

section Loop

variable {σ : Type*} {n : ℕ} {body body' : ℕ → σ → σ} {s : σ}

/-- **The loop invariant rule.** -/
theorem forLoop_invariant {f : ℕ → σ → σ} {I : ℕ → σ → Prop} (hstart : I 0 s)
    (hstep : ∀ k < n, ∀ s, I k s → I (k + 1) (f k s)) : I n (forLoop n f s) := by
  induction n with
  | zero => exact hstart
  | succ n ih =>
    exact hstep n (Nat.lt_succ_self n) _ (ih fun k hk ↦ hstep k (Nat.lt_succ_of_lt hk))

theorem forLoop_congr (h : ∀ k < n, ∀ s, body k s = body' k s) :
    forLoop n body s = forLoop n body' s := by
  induction n with
  | zero => rfl
  | succ n ih =>
    rw [forLoop, forLoop, ih fun k hk ↦ h k (Nat.lt_succ_of_lt hk), h n (Nat.lt_succ_self n)]

/-- **The lockstep rule**: a relation that the two bodies keep holds after the two loops. -/
theorem forLoop_rel {τ : Type*} {body' : ℕ → τ → τ} {t : τ} {R : σ → τ → Prop} (hstart : R s t)
    (hstep : ∀ k < n, ∀ s t, R s t → R (body k s) (body' k t)) :
    R (forLoop n body s) (forLoop n body' t) := by
  induction n with
  | zero => exact hstart
  | succ n ih =>
    exact hstep n (Nat.lt_succ_self n) _ _ (ih fun k hk ↦ hstep k (Nat.lt_succ_of_lt hk))

theorem forLoop_add {m : ℕ} :
    forLoop (m + n) body s = forLoop n (fun k ↦ body (m + k)) (forLoop m body s) := by
  induction n with
  | zero => rfl
  | succ n ih => rw [Nat.add_succ, forLoop, forLoop, ih]

/-- **A loop over rows and columns** is a loop over the cells, in row order. -/
theorem forLoop_grid {w : ℕ} (body : ℕ → ℕ → σ → σ) (s : σ) (hw : 0 < w) :
    forLoop n (fun row ↦ forLoop w (body row)) s =
      forLoop (n * w) (fun i ↦ body (i / w) (i % w)) s := by
  induction n with
  | zero => rw [Nat.zero_mul, forLoop, forLoop]
  | succ n ih =>
    rw [forLoop, ih, Nat.succ_mul, forLoop_add]
    refine forLoop_congr fun k hk s ↦ ?_
    rw [Nat.mul_comm n w, Nat.mul_add_div hw, Nat.div_eq_of_lt hk, Nat.add_zero, Nat.mul_add_mod,
      Nat.mod_eq_of_lt hk]

end Loop

/-- `for (i = 0; i < n; i++) body(i)`, where the body may fail. -/
def forLoopM {σ : Type*} : ℕ → (ℕ → σ → Option σ) → σ → Option σ
  | 0, _, s => some s
  | n + 1, body, s => (forLoopM n body s).bind (body n)

/-- **The loop invariant rule**, for total correctness: the loop does not fail. -/
theorem forLoopM_invariant {σ : Type*} {n : ℕ} {f : ℕ → σ → Option σ} {s : σ}
    {I : ℕ → σ → Prop} (hstart : I 0 s)
    (hstep : ∀ k < n, ∀ s, I k s → ∃ s', f k s = some s' ∧ I (k + 1) s') :
    ∃ s', forLoopM n f s = some s' ∧ I n s' := by
  induction n with
  | zero => exact ⟨s, rfl, hstart⟩
  | succ n ih =>
    obtain ⟨s₁, hloop, hs₁⟩ := ih fun k hk ↦ hstep k (Nat.lt_succ_of_lt hk)
    obtain ⟨s₂, hbody, hs₂⟩ := hstep n (Nat.lt_succ_self n) s₁ hs₁
    exact ⟨s₂, by rw [forLoopM, hloop, Option.bind_some, hbody], hs₂⟩

/-- **The loop invariant rule**, for partial correctness: whatever the loop ends with. -/
theorem forLoopM_of_eq_some {σ : Type*} {n : ℕ} {body : ℕ → σ → Option σ} {s t : σ} {I : σ → Prop}
    (hloop : forLoopM n body s = some t) (hstart : I s)
    (hstep : ∀ k s s', I s → body k s = some s' → I s') : I t := by
  induction n generalizing t with
  | zero => exact Option.some.inj hloop ▸ hstart
  | succ n ih =>
    obtain ⟨u, hfront, hbody⟩ := Option.bind_eq_some_iff.1 hloop
    exact hstep n u t (ih hfront) hbody

/-! ### Arrays that record their stores -/

/-- An array, and the set of indices stored to. -/
structure Recorded (α : Type*) where
  val : ℕ → α
  stored : Set ℕ

namespace Recorded

variable {α : Type*}

/-- `a[i] = v` -/
def put (a : Recorded α) (i : ℕ) (v : α) : Recorded α :=
  ⟨Function.update a.val i v, insert i a.stored⟩

@[simp] theorem put_self (a : Recorded α) (i : ℕ) (v : α) : (a.put i v).val i = v :=
  Function.update_self _ _ _

theorem put_of_ne {a : Recorded α} {i j : ℕ} {v : α} (h : j ≠ i) : (a.put i v).val j = a.val j :=
  Function.update_of_ne h _ _

/-- From `a` to `a'` only indices in `r` are stored to, and only they change. -/
structure Within (r : Set ℕ) (a a' : Recorded α) : Prop where
  stored : a'.stored ⊆ a.stored ∪ r
  frame : ∀ i ∉ r, a'.val i = a.val i

namespace Within

variable {r : Set ℕ} {a b c : Recorded α} {n : ℕ} {body : ℕ → Recorded α → Recorded α}

theorem refl (r : Set ℕ) (a : Recorded α) : Within r a a :=
  ⟨Set.subset_union_left, fun _ _ ↦ rfl⟩

theorem trans (h : Within r a b) (h' : Within r b c) : Within r a c :=
  ⟨h'.stored.trans (Set.union_subset h.stored Set.subset_union_right),
    fun i hi ↦ (h'.frame i hi).trans (h.frame i hi)⟩

theorem put {i : ℕ} (hi : i ∈ r) (a : Recorded α) (v : α) : Within r a (a.put i v) :=
  ⟨Set.insert_subset (Or.inr hi) Set.subset_union_left,
    fun _ hj ↦ put_of_ne fun heq ↦ hj (heq ▸ hi)⟩

theorem forLoop (h : ∀ k < n, ∀ a, Within r a (body k a)) (a : Recorded α) :
    Within r a (forLoop n body a) :=
  forLoop_invariant (I := fun _ a' ↦ Within r a a') (refl r a) fun k hk _ ha ↦ ha.trans (h k hk _)

end Within

end Recorded
