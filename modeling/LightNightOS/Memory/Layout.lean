import Mathlib.Data.Nat.Bitwise

/-!
# The memory layout of `memory.h`

The constants and macros of `memory.h`, and the records it declares: an E820 entry, a page
descriptor, and the part of `Global_Memory_Descriptor` the memory code reads. All of them are
`unsigned long` values, kept as naturals; `u64` is the reduction modulo `2 ^ 64` that every sum and
difference of such values goes through.

`PAGE_2M_ALIGN` rounds up by adding and masking, and the code rounds an end down by shifting right
and left again. Both are the same arithmetic, recorded in `page2MAlign_eq` and `page2MFloor_eq`, so
no later proof sees a bit mask.
-/

namespace LightNight

/-! ### Machine words -/

/-- Reduction of an `unsigned long` result. -/
def u64 (n : ℕ) : ℕ := n % 2 ^ 64

/-- Reduction of an `unsigned int` result. -/
def u32 (n : ℕ) : ℕ := n % 2 ^ 32

theorem u64_lt (n : ℕ) : u64 n < 2 ^ 64 := Nat.mod_lt _ (by decide)

theorem u64_of_lt {n : ℕ} (h : n < 2 ^ 64) : u64 n = n := Nat.mod_eq_of_lt h

theorem u32_lt (n : ℕ) : u32 n < 2 ^ 32 := Nat.mod_lt _ (by decide)

theorem u32_of_lt {n : ℕ} (h : n < 2 ^ 32) : u32 n = n := Nat.mod_eq_of_lt h

/-- `~(2 ^ k - 1)` as an `unsigned long`. -/
def lowMask (k : ℕ) : ℕ := 2 ^ 64 - 2 ^ k

/-- Masking off the low `k` bits rounds down to a multiple of `2 ^ k`. -/
theorem and_lowMask {x k : ℕ} (hx : x < 2 ^ 64) (hk : k ≤ 64) :
    x &&& lowMask k = x / 2 ^ k * 2 ^ k := by
  have hmask : lowMask k = 2 ^ 64 - (2 ^ k - 1 + 1) := by
    rw [lowMask, Nat.sub_add_cancel Nat.one_le_two_pow]
  have hlt : 2 ^ k - 1 < 2 ^ 64 :=
    lt_of_lt_of_le (Nat.sub_lt Nat.one_le_two_pow Nat.one_pos) (Nat.pow_le_pow_right Nat.two_pos hk)
  refine Nat.eq_of_testBit_eq fun i ↦ ?_
  rw [Nat.testBit_and, hmask, Nat.testBit_two_pow_sub_succ hlt, Nat.testBit_two_pow_sub_one,
    ← Nat.shiftRight_eq_div_pow, ← Nat.shiftLeft_eq, Nat.testBit_shiftLeft,
    Nat.testBit_shiftRight]
  by_cases hi : k ≤ i
  · have hback : k + (i - k) = i := by omega
    have hhigh : x.testBit i = true → i < 64 := by
      intro hbit
      by_contra h64
      rw [Nat.testBit_lt_two_pow (lt_of_lt_of_le hx (Nat.pow_le_pow_right Nat.two_pos
        (Nat.le_of_not_lt h64)))] at hbit
      exact Bool.false_ne_true hbit
    rw [hback]
    cases hbit : x.testBit i
    · simp
    · simp [hi, hhigh hbit]
  · simp [hi, Nat.lt_of_not_le hi]

/-! ### Pages and addresses -/

/-- `PAGE_2M_SHIFT` -/
def page2MShift : ℕ := 21

/-- `PAGE_2M_SIZE` -/
def page2MSize : ℕ := 2 ^ page2MShift

/-- `PAGE_2M_MASK` -/
def page2MMask : ℕ := lowMask page2MShift

/-- `PAGE_OFFSET` -/
def pageOffset : ℕ := 0xffff800000000000

/-- `PAGE_2M_ALIGN(addr)` -/
def page2MAlign (addr : ℕ) : ℕ :=
  u64 (u64 (addr + page2MSize) + (2 ^ 64 - 1)) &&& page2MMask

/-- `(x >> PAGE_2M_SHIFT) << PAGE_2M_SHIFT` -/
def page2MFloor (x : ℕ) : ℕ :=
  u64 ((x >>> page2MShift) <<< page2MShift)

/-- `Phy_To_Virt(addr)` -/
def phyToVirt (addr : ℕ) : ℕ := u64 (addr + pageOffset)

theorem page2MSize_eq : page2MSize = 2097152 := rfl

theorem page2MFloor_eq {x : ℕ} (hx : x < 2 ^ 64) :
    page2MFloor x = x / page2MSize * page2MSize := by
  have hle : x / page2MSize * page2MSize ≤ x := Nat.div_mul_le_self _ _
  rw [page2MFloor, Nat.shiftRight_eq_div_pow, Nat.shiftLeft_eq]
  exact u64_of_lt (lt_of_le_of_lt hle hx)

/-- Rounding up, when the round-up does not wrap. -/
theorem page2MAlign_eq {addr : ℕ} (h : addr + page2MSize ≤ 2 ^ 64) :
    page2MAlign addr = (addr + page2MSize - 1) / page2MSize * page2MSize := by
  have hsum : u64 (u64 (addr + page2MSize) + (2 ^ 64 - 1)) = addr + page2MSize - 1 := by
    rw [page2MSize_eq] at h ⊢
    simp only [u64]
    omega
  have hlt : addr + page2MSize - 1 < 2 ^ 64 := by
    rw [page2MSize_eq] at h ⊢
    omega
  rw [page2MAlign, hsum, page2MMask, and_lowMask hlt (by decide)]
  rfl

/-- Below `2 ^ 47` the direct map is a plain translation. -/
theorem phyToVirt_of_lt {addr : ℕ} (h : addr < 2 ^ 47) : phyToVirt addr = addr + pageOffset := by
  refine u64_of_lt ?_
  rw [pageOffset]
  omega

/-! ### Records -/

/-- `struct E820`: one entry of the firmware's memory map. -/
structure E820 where
  address : ℕ
  length : ℕ
  type : ℕ
  deriving DecidableEq, Repr

/-- `struct Page`: one 2 MB frame's descriptor. Descriptors sit in one array, so `next` is kept as
the index of the descriptor it points at, `none` for `NULL`. -/
structure Page where
  phyAddr : ℕ
  refCount : ℕ
  next : Option ℕ
  deriving DecidableEq, Repr

/-- `sizeof(struct Page)`: two words and an `unsigned int` padded to one. -/
def sizeofPage : ℕ := 24

end LightNight
