import LightNightOS.Foundation.Runs
import Mathlib.Data.Set.Basic
import Mathlib.Logic.Function.Basic

/-!
# A pool of counted items

Items are taken from the front of a free list and released to it. A count is kept for each item, set
to 1 when it is taken; releasing an item lowers its count, and the item is free again when the count
gets to
0. Counts are unsigned and wrap at `bound`.

Nothing keeps a client from releasing an item that is free. Then the count wraps, and goes down from
there with every such release, so up to `bound` calls it is not 0 again and the item does not go to
the free list a second time. `Sound` is that invariant, with the number of calls so far in it, and
`Sound.held_iff` says whose the items are that are not free.
-/

/-- The free items, the next one first, and the counts. -/
structure CountedPool (ι : Type*) where
  free : List ι
  count : ι → ℕ

/-- A call on a pool, with its result. A release may be of nothing. -/
inductive PoolCall (ι : Type*)
  | take (i : Option ι)
  | release (i : Option ι)

namespace CountedPool

open Transition

variable {ι : Type*} [DecidableEq ι]

/-- Take the next free item. -/
def take (p : CountedPool ι) : Option ι × CountedPool ι :=
  match p.free with
  | [] => (none, p)
  | i :: free => (some i, ⟨free, Function.update p.count i 1⟩)

/-- Release an item. -/
def release (bound : ℕ) (p : CountedPool ι) (i : ι) : CountedPool ι :=
  let count := (p.count i + (bound - 1)) % bound
  ⟨if count = 0 then i :: p.free else p.free, Function.update p.count i count⟩

/-- A call as a step. What is released is one of the items. -/
def Step (bound : ℕ) (items : Set ι) (p : CountedPool ι) : PoolCall ι → CountedPool ι → Prop
  | .take i, q => p.take = (i, q)
  | .release none, q => q = p
  | .release (some i), q => i ∈ items ∧ q = p.release bound i

/-- The item was taken, and has not been released since. -/
def Held (calls : List (PoolCall ι)) (i : ι) : Prop :=
  ∃ before after, calls = before ++ .take (some i) :: after ∧ .release (some i) ∉ after

/-! ### What is held -/

variable {calls : List (PoolCall ι)} {i j : ι}

omit [DecidableEq ι] in
theorem not_held_nil : ¬Held [] i :=
  fun ⟨_, _, heq, _⟩ ↦ absurd heq.symm (List.append_ne_nil_of_right_ne_nil _ (List.cons_ne_nil _ _))

omit [DecidableEq ι] in
/-- What one more call does to what is held. -/
theorem held_snoc {a : PoolCall ι} : Held (calls ++ [a]) i ↔
    a = .take (some i) ∨ Held calls i ∧ a ≠ .release (some i) := by
  constructor
  · rintro ⟨before, after, heq, hafter⟩
    rcases List.eq_nil_or_concat after with rfl | ⟨after, b, rfl⟩
    · exact Or.inl (List.cons.inj (List.append_inj' heq rfl).2).1
    · rw [List.concat_eq_append, ← List.cons_append, ← List.append_assoc] at heq
      obtain ⟨hcalls, hlast⟩ := List.append_inj' heq rfl
      obtain rfl := (List.cons.inj hlast).1
      rw [List.concat_eq_append, List.mem_append, List.mem_singleton, not_or] at hafter
      exact Or.inr ⟨⟨before, after, hcalls, hafter.1⟩, Ne.symm hafter.2⟩
  · rintro (rfl | ⟨⟨before, after, rfl, hafter⟩, hne⟩)
    · exact ⟨calls, [], rfl, List.not_mem_nil⟩
    · refine ⟨before, after ++ [a], by rw [List.append_assoc, List.cons_append], ?_⟩
      rw [List.mem_append, List.mem_singleton, not_or]
      exact ⟨hafter, Ne.symm hne⟩

/-! ### The invariant -/

/-- What holds after some calls, fewer than `bound`. -/
structure Sound (bound : ℕ) (items : Set ι) (calls : List (PoolCall ι)) (p : CountedPool ι) :
    Prop where
  nodup : p.free.Nodup
  mem : ∀ i ∈ p.free, i ∈ items
  free : ∀ i ∈ p.free, p.count i = 0 ∨ bound - calls.length ≤ p.count i ∧ p.count i < bound
  held : ∀ i ∈ items, i ∉ p.free → p.count i = 1
  held_iff : ∀ i ∈ items, i ∉ p.free ↔ Held calls i

variable {bound : ℕ} {items : Set ι} {p q : CountedPool ι} {a : PoolCall ι}

omit [DecidableEq ι] in
theorem length_snoc (calls : List (PoolCall ι)) (a : PoolCall ι) :
    (calls ++ [a]).length = calls.length + 1 := by
  rw [List.length_append, List.length_singleton]

omit [DecidableEq ι] in
/-- One call more leaves more room for the counts of what is free. -/
theorem Sound.free_snoc (h : Sound bound items calls p) (a : PoolCall ι) (hi : i ∈ p.free) :
    p.count i = 0 ∨ bound - (calls ++ [a]).length ≤ p.count i ∧ p.count i < bound := by
  have hfree := h.free i hi
  rw [length_snoc]
  omega

omit [DecidableEq ι] in
/-- A call that does nothing. -/
theorem Sound.idle (h : Sound bound items calls p) (ha : a = .take none ∨ a = .release none) :
    Sound bound items (calls ++ [a]) p where
  nodup := h.nodup
  mem := h.mem
  free _ hi := h.free_snoc a hi
  held := h.held
  held_iff i hi := by
    rw [h.held_iff i hi, held_snoc]
    rcases ha with rfl | rfl <;> simp

/-- Taking the first item. -/
theorem Sound.take_cons (h : Sound bound items calls p) {l : List ι} (hp : p.free = i :: l) :
    Sound bound items (calls ++ [.take (some i)]) ⟨l, Function.update p.count i 1⟩ := by
  obtain ⟨hi, hl⟩ := List.nodup_cons.1 (hp ▸ h.nodup)
  have hsub : ∀ j ∈ l, j ∈ p.free := fun j hj ↦ hp ▸ List.mem_cons_of_mem i hj
  have hne : ∀ j ∈ l, j ≠ i := fun j hj heq ↦ hi (heq ▸ hj)
  refine ⟨hl, fun j hj ↦ h.mem j (hsub j hj), fun j hj ↦ ?_, fun j hj hout ↦ ?_, fun j hj ↦ ?_⟩
  · dsimp only
    rw [Function.update_of_ne (hne j hj)]
    exact h.free_snoc _ (hsub j hj)
  · dsimp only at hout ⊢
    by_cases heq : j = i
    · rw [heq, Function.update_self]
    · rw [Function.update_of_ne heq]
      exact h.held j hj fun hmem ↦ hout ((List.mem_cons.1 (hp ▸ hmem)).resolve_left heq)
  · have hmem : j ∉ l ↔ j = i ∨ j ∉ p.free := by
      rw [hp, List.mem_cons, not_or]
      by_cases heq : j = i
      · simp [heq, hi]
      · simp [heq]
    rw [hmem, h.held_iff j hj, held_snoc]
    simp [eq_comm]

omit [DecidableEq ι] in
/-- The count of an item that is free does not come down to 0. -/
theorem Sound.count_free (h : Sound bound items calls p) (hbound : calls.length + 1 < bound)
    (hi : i ∈ p.free) : (p.count i + (bound - 1)) % bound ≠ 0 ∧
      bound - (calls.length + 1) ≤ (p.count i + (bound - 1)) % bound ∧
      (p.count i + (bound - 1)) % bound < bound := by
  rcases h.free i hi with hzero | ⟨hlo, hhi⟩
  · rw [hzero, Nat.zero_add, Nat.mod_eq_of_lt (by omega)]
    omega
  · have hwrap : p.count i + (bound - 1) = p.count i - 1 + bound := by omega
    rw [hwrap, Nat.add_mod_right, Nat.mod_eq_of_lt (by omega)]
    omega

/-- Releasing an item that is free already: its count wraps, or goes on going down. -/
theorem Sound.release_free (h : Sound bound items calls p) (hbound : calls.length + 1 < bound)
    (hi : i ∈ p.free) : Sound bound items (calls ++ [.release (some i)]) (p.release bound i) := by
  have hcount := h.count_free hbound hi
  rw [release]
  simp only [if_neg hcount.1]
  refine ⟨h.nodup, h.mem, fun j hj ↦ ?_, fun j hj hout ↦ ?_, fun j hj ↦ ?_⟩
  · dsimp only at hj ⊢
    by_cases heq : j = i
    · rw [heq, Function.update_self, length_snoc]
      exact Or.inr hcount.2
    · rw [Function.update_of_ne heq]
      exact h.free_snoc _ hj
  · dsimp only at hout ⊢
    have hne : j ≠ i := fun heq ↦ hout (heq ▸ hi)
    rw [Function.update_of_ne hne]
    exact h.held j hj hout
  · rw [h.held_iff j hj, held_snoc]
    have hne : Held calls j → j ≠ i := fun hheld heq ↦
      (h.held_iff j hj).2 hheld (heq ▸ hi)
    simp only [reduceCtorEq, false_or, ne_eq, PoolCall.release.injEq, Option.some.injEq]
    exact ⟨fun hheld ↦ ⟨hheld, fun heq ↦ hne hheld heq.symm⟩, And.left⟩

/-- Releasing an item that is held. -/
theorem Sound.release_held (h : Sound bound items calls p) (hbound : 1 < bound) (hmem : i ∈ items)
    (hi : i ∉ p.free) : Sound bound items (calls ++ [.release (some i)]) (p.release bound i) := by
  have hcount : (p.count i + (bound - 1)) % bound = 0 := by
    rw [h.held i hmem hi, Nat.add_sub_cancel' hbound.le, Nat.mod_self]
  rw [release]
  simp only [hcount, if_true]
  refine ⟨List.nodup_cons.2 ⟨hi, h.nodup⟩, fun j hj ↦ ?_, fun j hj ↦ ?_, fun j hj hout ↦ ?_,
    fun j hj ↦ ?_⟩
  · rcases List.mem_cons.1 hj with rfl | hj
    exacts [hmem, h.mem j hj]
  · dsimp only at hj ⊢
    by_cases heq : j = i
    · rw [heq, Function.update_self]
      exact Or.inl rfl
    · rw [Function.update_of_ne heq]
      exact h.free_snoc _ ((List.mem_cons.1 hj).resolve_left heq)
  · dsimp only at hout ⊢
    rw [List.mem_cons, not_or] at hout
    rw [Function.update_of_ne hout.1]
    exact h.held j hj hout.2
  · rw [List.mem_cons, not_or, h.held_iff j hj, held_snoc]
    simp only [reduceCtorEq, false_or, ne_eq, PoolCall.release.injEq, Option.some.injEq]
    rw [and_comm, eq_comm]

/-- **One call** keeps the pool sound, while fewer than `bound` have been made. -/
theorem Sound.step (h : Sound bound items calls p) (hbound : calls.length + 1 < bound)
    (hstep : p.Step bound items a q) : Sound bound items (calls ++ [a]) q := by
  cases a with
  | take i =>
    rw [Step, take] at hstep
    split at hstep
    case h_1 hnil =>
      obtain ⟨rfl, rfl⟩ := Prod.mk.inj hstep
      exact h.idle (Or.inl rfl)
    case h_2 j l hcons =>
      obtain ⟨rfl, rfl⟩ := Prod.mk.inj hstep
      exact h.take_cons hcons
  | release i =>
    cases i with
    | none =>
      obtain rfl : q = p := hstep
      exact h.idle (Or.inr rfl)
    | some i =>
      obtain ⟨hmem, rfl⟩ : i ∈ items ∧ q = p.release bound i := hstep
      by_cases hi : i ∈ p.free
      · exact h.release_free hbound hi
      · exact h.release_held (by omega) hmem hi

omit [DecidableEq ι] in
/-- A pool none of whose items has been taken. -/
theorem sound_start (hnodup : p.free.Nodup) (hitems : ∀ i, i ∈ items ↔ i ∈ p.free)
    (hcount : ∀ i ∈ p.free, p.count i = 0) : Sound bound items [] p where
  nodup := hnodup
  mem i hi := (hitems i).2 hi
  free i hi := Or.inl (hcount i hi)
  held i hi hout := absurd ((hitems i).1 hi) hout
  held_iff i hi := iff_of_false (not_not.2 ((hitems i).1 hi)) not_held_nil

/-- **Every run** of fewer than `bound` calls. -/
theorem Sound.run (h : Sound bound items [] p) (hrun : Run (Step bound items) p calls q)
    (hbound : calls.length < bound) : Sound bound items calls q := by
  refine hrun.traced (I := fun calls q ↦ calls.length < bound → Sound bound items calls q) ?_
    (fun _ ↦ h) hbound
  intro calls p a q hp hstep hbound
  rw [length_snoc] at hbound
  exact (hp (by omega)).step hbound hstep

/-- **What is taken is not held.** -/
theorem Sound.take_notHeld (h : Sound bound items calls p) (htake : p.take = (some i, q)) :
    ¬Held calls i := by
  rw [take] at htake
  split at htake
  case h_1 => exact absurd (Prod.mk.inj htake).1 nofun
  case h_2 j l hcons =>
    obtain rfl := Option.some.inj (Prod.mk.inj htake).1
    have hmem : j ∈ p.free := hcons ▸ List.mem_cons_self
    exact fun hheld ↦ (h.held_iff j (h.mem j hmem)).2 hheld hmem

end CountedPool
