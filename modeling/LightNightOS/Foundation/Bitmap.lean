import Mathlib.Data.Finset.Card
import Mathlib.Data.Finset.Range
import Mathlib.Data.List.TakeWhile
import Mathlib.Data.Nat.Bitwise
import Mathlib.Logic.Function.Basic

/-!
# A set of numbers in the bits of bytes

A **bitmap** holds a set of numbers: `i` is a member when bit `i % 8` of byte `i / 8` is set. Bytes
are promoted to 32-bit integers before they are masked, and cut back to 8 bits when they are stored.

* `mem_set`, `mem_clear` — setting and clearing a bit adds and removes the one number;
* `get_eq_zero_iff` — the masked byte is 0 exactly for what is not a member.

`firstClear` is the search for the least number that is not a member, and `clears` are all of them
below a bound.
-/

/-- The bytes of a bitmap. -/
abbrev Bitmap := ℕ → UInt8

namespace Bitmap

variable (b : Bitmap) (i j : ℕ)

/-- `b[i / 8] & (1 << i % 8)` -/
def get : ℕ := (b (i / 8)).toNat &&& (1 <<< (i % 8))

/-- `b[i / 8] |= 1 << i % 8` -/
def set : Bitmap :=
  Function.update b (i / 8) (UInt8.ofNat ((b (i / 8)).toNat ||| (1 <<< (i % 8))))

/-- `b[i / 8] &= ~(1 << i % 8)` -/
def clear : Bitmap :=
  Function.update b (i / 8) (UInt8.ofNat ((b (i / 8)).toNat &&& (0xFFFFFFFF ^^^ (1 <<< (i % 8)))))

/-- The number `i` is a member. -/
def Mem : Prop := (b (i / 8)).toNat.testBit (i % 8) = true

instance : Decidable (b.Mem i) := inferInstanceAs (Decidable (_ = true))

variable {b i j}

/-- The masked byte is 0 exactly for what is not a member. -/
theorem get_eq_zero_iff : b.get i = 0 ↔ ¬b.Mem i := by
  rw [get, Mem, Nat.one_shiftLeft, Nat.and_two_pow]
  cases (b (i / 8)).toNat.testBit (i % 8) <;> simp

/-- A byte that is stored keeps the low 8 bits of the result. -/
theorem testBit_ofNat {n k : ℕ} (hk : k < 8) : (UInt8.ofNat n).toNat.testBit k = n.testBit k := by
  rw [UInt8.toNat_ofNat', Nat.testBit_mod_two_pow, decide_eq_true hk, Bool.true_and]

/-- Two numbers share a byte and a bit of it only if they are equal. -/
theorem bit_ne_of_byte_eq (hne : j ≠ i) (hbyte : j / 8 = i / 8) : i % 8 ≠ j % 8 := by
  omega

/-- **Setting** a bit adds the one number. -/
theorem mem_set : (b.set i).Mem j ↔ j = i ∨ b.Mem j := by
  have hbit : j % 8 < 8 := Nat.mod_lt j (by decide)
  rw [Mem, set]
  by_cases hbyte : j / 8 = i / 8
  · rw [hbyte, Function.update_self, testBit_ofNat hbit, Nat.testBit_or, Nat.one_shiftLeft,
      Nat.testBit_two_pow, Bool.or_eq_true, decide_eq_true_iff, Mem, hbyte, or_comm]
    exact or_congr_left ⟨fun h ↦ by omega, fun h ↦ by omega⟩
  · rw [Function.update_of_ne hbyte]
    exact ⟨Or.inr, fun h ↦ h.resolve_left fun heq ↦ hbyte (heq ▸ rfl)⟩

/-- The mask that clears one of the low 8 bits keeps the others of them. -/
theorem testBit_mask {k l : ℕ} (hl : l < 8) :
    (0xFFFFFFFF ^^^ (1 <<< k)).testBit l = decide (k ≠ l) := by
  have hones : (0xFFFFFFFF : ℕ).testBit l = true := by
    rw [show (0xFFFFFFFF : ℕ) = 2 ^ 32 - 1 from rfl, Nat.testBit_two_pow_sub_one]
    exact decide_eq_true (by omega)
  rw [Nat.testBit_xor, hones, Nat.one_shiftLeft, Nat.testBit_two_pow, Bool.true_xor, decide_not]

/-- **Clearing** a bit removes the one number. -/
theorem mem_clear : (b.clear i).Mem j ↔ b.Mem j ∧ j ≠ i := by
  have hbit : j % 8 < 8 := Nat.mod_lt j (by decide)
  rw [Mem, clear]
  by_cases hbyte : j / 8 = i / 8
  · rw [hbyte, Function.update_self, testBit_ofNat hbit, Nat.testBit_and, testBit_mask hbit,
      Bool.and_eq_true, decide_eq_true_iff, Mem, hbyte]
    exact and_congr_right fun _ ↦ ⟨fun h heq ↦ h (heq ▸ rfl), fun h ↦ bit_ne_of_byte_eq h hbyte⟩
  · rw [Function.update_of_ne hbyte]
    exact ⟨fun h ↦ ⟨h, fun heq ↦ hbyte (heq ▸ rfl)⟩, And.left⟩

/-- Cleared bytes hold no number. -/
theorem not_mem_of_zero (h : b (i / 8) = 0) : ¬b.Mem i := by
  rw [Mem, h]
  simp

/-! ### The least number that is not a member -/

/-- The search for a bit that is not set, among the numbers below `n` whose byte is below `size`. -/
def firstClear (b : Bitmap) (size n : ℕ) : Option ℕ :=
  ((List.range n).takeWhile fun i ↦ i / 8 < size).find? fun i ↦ b.get i = 0

/-- Where the bytes suffice, the search looks at every number. -/
theorem takeWhile_range {size n : ℕ} (h : n ≤ 8 * size) :
    ((List.range n).takeWhile fun i ↦ i / 8 < size) = List.range n := by
  refine List.takeWhile_eq_self_iff.2 fun i hi ↦ decide_eq_true ?_
  rw [List.mem_range] at hi
  omega

/-- **What the search finds** is the least number that is not a member. -/
theorem firstClear_eq_some {size n : ℕ} (h : n ≤ 8 * size) : b.firstClear size n = some i ↔
    i < n ∧ ¬b.Mem i ∧ ∀ j < i, b.Mem j := by
  rw [firstClear, takeWhile_range h, List.find?_range_eq_some, List.mem_range, decide_eq_true_iff,
    get_eq_zero_iff, and_left_comm]
  refine and_congr_right fun _ ↦ and_congr_right fun _ ↦ forall₂_congr fun j _ ↦ ?_
  rw [Bool.not_eq_true', decide_eq_false_iff_not, get_eq_zero_iff, not_not]

/-- The search fails when every number is a member. -/
theorem firstClear_eq_none {size n : ℕ} (h : n ≤ 8 * size) :
    b.firstClear size n = none ↔ ∀ i < n, b.Mem i := by
  rw [firstClear, takeWhile_range h, List.find?_eq_none]
  refine forall_congr' fun i ↦ ?_
  rw [List.mem_range, decide_eq_true_iff, get_eq_zero_iff, not_not]

/-! ### All numbers that are not members -/

/-- The numbers below `n` that are not members. -/
def clears (b : Bitmap) (n : ℕ) : Finset ℕ := (Finset.range n).filter fun i ↦ ¬b.Mem i

/-- The numbers below the bound that are not members. -/
theorem mem_clears {n : ℕ} : i ∈ b.clears n ↔ i < n ∧ ¬b.Mem i := by
  rw [clears, Finset.mem_filter, Finset.mem_range]

/-- There are no more of them than numbers below the bound. -/
theorem card_clears_le (b : Bitmap) (n : ℕ) : (b.clears n).card ≤ n :=
  (Finset.card_filter_le _ _).trans (Finset.card_range n).le

theorem card_clears_of_zero {n : ℕ} (h : ∀ i < n, ¬b.Mem i) : (b.clears n).card = n := by
  rw [clears, Finset.filter_true_of_mem fun i hi ↦ h i (Finset.mem_range.1 hi), Finset.card_range]

/-- Setting a bit that was clear leaves one clear bit less. -/
theorem card_clears_set {n : ℕ} (hi : i < n) (hclear : ¬b.Mem i) :
    ((b.set i).clears n).card + 1 = (b.clears n).card := by
  have herase : (b.set i).clears n = (b.clears n).erase i := by
    ext j
    rw [Finset.mem_erase, mem_clears, mem_clears, mem_set, not_or]
    exact and_left_comm
  rw [herase, Finset.card_erase_add_one (mem_clears.2 ⟨hi, hclear⟩)]

/-- Clearing a bit that was set leaves one clear bit more. -/
theorem card_clears_clear {n : ℕ} (hi : i < n) (hset : b.Mem i) :
    ((b.clear i).clears n).card = (b.clears n).card + 1 := by
  have hinsert : (b.clear i).clears n = insert i (b.clears n) := by
    ext j
    rw [Finset.mem_insert, mem_clears, mem_clears, mem_clear, not_and_or, not_not]
    constructor
    · rintro ⟨hj, hout | rfl⟩
      exacts [Or.inr ⟨hj, hout⟩, Or.inl rfl]
    · rintro (rfl | ⟨hj, hout⟩)
      exacts [⟨hi, Or.inr rfl⟩, ⟨hj, Or.inl hout⟩]
  rw [hinsert, Finset.card_insert_of_notMem fun hmem ↦ (mem_clears.1 hmem).2 hset]

/-- Clearing a bit that was clear changes none of them. -/
theorem clears_clear {n : ℕ} (hclear : ¬b.Mem i) : (b.clear i).clears n = b.clears n := by
  ext j
  rw [mem_clears, mem_clears, mem_clear]
  refine and_congr_right fun _ ↦ not_congr (and_iff_left_of_imp ?_)
  rintro hj rfl
  exact hclear hj

end Bitmap
