import Mathlib.Data.Finset.Card
import Mathlib.Data.Fintype.Card
import Mathlib.Logic.Function.Basic

/-!
# Slots with a key and a count

Each slot of a cache carries the key it is for and counts how often it was used. A slot whose count
is 0 may be taken for another key, but it keeps its key until then, and a count that wraps around
leaves the key of an entry in use behind in just that way. So several slots can have one key.

What is kept is that only the first slot with a key can have a count (`Holds.first`), as long as a
key is counted in the first slot that has it, and given the first slot without a count when no count
is left for it. Hence no more slots are in use than there are keys in use, whatever wraps
(`Holds.exists_zero`).

* `Holds.fill`, `Holds.count` — the first slot without a count is taken for a key, and the first
  slot with a key is counted, wrapping or not;
* `Holds.drop`, `Holds.erase` — a key is given up, and its slot with it if it has one.
-/

namespace CountedSlots

variable {n : ℕ} {κ : Type*} {slots : Fin n → κ × ℕ} {used : Finset κ} {i : Fin n} {k : κ} {c : ℕ}

/-- The slots with a count are for keys in use, and each is the first slot with its key. -/
structure Holds (slots : Fin n → κ × ℕ) (used : Finset κ) : Prop where
  mem : ∀ i, (slots i).2 ≠ 0 → (slots i).1 ∈ used
  first : ∀ i j, (slots i).2 ≠ 0 → (slots j).1 = (slots i).1 → i ≤ j

/-- Where no slot has a count there is nothing to show. -/
theorem holds_empty (h : ∀ i, (slots i).2 = 0) : Holds slots used where
  mem := fun i hi ↦ absurd (h i) hi
  first := fun i _ hi ↦ absurd (h i) hi

/-- **A slot is left** while there are fewer keys in use than slots. -/
theorem Holds.exists_zero (h : Holds slots used) (hcard : used.card < n) :
    ∃ i, (slots i).2 = 0 := by
  by_contra! hall
  have hinj : Function.Injective fun i ↦ (⟨(slots i).1, h.mem i (hall i)⟩ : used) := by
    intro i j hij
    have heq : (slots i).1 = (slots j).1 := congrArg Subtype.val hij
    exact le_antisymm (h.first i j (hall i) heq.symm) (h.first j i (hall j) heq)
  have hle := Fintype.card_le_of_injective _ hinj
  rw [Fintype.card_fin, Fintype.card_coe] at hle
  omega

/-- **A slot is assigned**: if it gets a count it is the first slot with its key, and the key is in
use; the other slots with a count keep both. -/
theorem Holds.update {used' : Finset κ} {e : κ × ℕ} (h : Holds slots used)
    (hkeep : ∀ j, j ≠ i → (slots j).2 ≠ 0 → (slots j).1 ∈ used' ∧ (slots j).1 ≠ e.1)
    (he : e.2 ≠ 0 → e.1 ∈ used' ∧ ∀ j, (slots j).1 = e.1 → i ≤ j) :
    Holds (Function.update slots i e) used' := by
  constructor
  · intro j hj
    rcases eq_or_ne j i with rfl | hji
    · rw [Function.update_self] at hj ⊢
      exact (he hj).1
    · rw [Function.update_of_ne hji] at hj ⊢
      exact (hkeep j hji hj).1
  · intro j l hj hl
    rcases eq_or_ne j i with rfl | hji
    · rw [Function.update_self] at hj hl
      rcases eq_or_ne l j with rfl | hlj
      · exact le_rfl
      · rw [Function.update_of_ne hlj] at hl
        exact (he hj).2 l hl
    · rw [Function.update_of_ne hji] at hj hl
      rcases eq_or_ne l i with rfl | hli
      · rw [Function.update_self] at hl
        exact absurd hl.symm (hkeep j hji hj).2
      · rw [Function.update_of_ne hli] at hl
        exact h.first j l hj hl

/-- The first slot with a key is the only one that can have a count. -/
theorem Holds.key_ne (h : Holds slots used) (hi : (slots i).1 = k)
    (hfirst : ∀ j, (slots j).1 = k → i ≤ j) {j : Fin n} (hji : j ≠ i) (hj : (slots j).2 ≠ 0) :
    (slots j).1 ≠ k := fun hjk ↦
  hji (le_antisymm (h.first j i hj (hi.trans hjk.symm)) (hfirst j hjk))

variable [DecidableEq κ]

/-- The first slot with a key is counted. -/
theorem Holds.count (h : Holds slots used) (hi : (slots i).1 = k)
    (hfirst : ∀ j, (slots j).1 = k → i ≤ j) :
    Holds (Function.update slots i (k, c)) (insert k used) :=
  h.update (fun j hji hj ↦ ⟨Finset.mem_insert_of_mem (h.mem j hj), h.key_ne hi hfirst hji hj⟩)
    fun _ ↦ ⟨Finset.mem_insert_self k used, hfirst⟩

/-- The first slot without a count is taken for a key that has no slot with one. -/
theorem Holds.fill (h : Holds slots used) (hfirst : ∀ j, (slots j).2 = 0 → i ≤ j)
    (hnone : ∀ j, (slots j).1 = k → (slots j).2 = 0) :
    Holds (Function.update slots i (k, c)) (insert k used) :=
  h.update (fun j _ hj ↦ ⟨Finset.mem_insert_of_mem (h.mem j hj), fun hjk ↦ hj (hnone j hjk)⟩)
    fun _ ↦ ⟨Finset.mem_insert_self k used, fun j hj ↦ hfirst j (hnone j hj)⟩

/-- The first slot with a key is emptied; it gets a key that is not in use. -/
theorem Holds.drop {none : κ} (h : Holds slots used) (hi : (slots i).1 = k)
    (hfirst : ∀ j, (slots j).1 = k → i ≤ j) (hnone : none ∉ used) :
    Holds (Function.update slots i (none, 0)) (used.erase k) :=
  h.update
    (fun j hji hj ↦ ⟨Finset.mem_erase.2 ⟨h.key_ne hi hfirst hji hj, h.mem j hj⟩,
      ne_of_mem_of_not_mem (h.mem j hj) hnone⟩)
    fun hzero ↦ absurd rfl hzero

/-- A key without a slot is dropped. -/
theorem Holds.erase (h : Holds slots used) (hnone : ∀ j, (slots j).1 ≠ k) :
    Holds slots (used.erase k) where
  mem := fun i hi ↦ Finset.mem_erase.2 ⟨hnone i, h.mem i hi⟩
  first := h.first

end CountedSlots
