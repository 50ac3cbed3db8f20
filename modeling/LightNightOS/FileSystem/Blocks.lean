import LightNightOS.FileSystem.BlockCache
import LightNightOS.FileSystem.OpenFiles
import LightNightOS.Foundation.Bitmap
import LightNightOS.Foundation.CountedPool

/-!
# Allocating blocks

`fs_alloc_block` takes the first block whose bit in `block_bitmap` is not set, and `fs_free_block`
clears the bit of a block. Each computes the byte and the bit of its block on its own, with masks on
bytes that are promoted to `int`; `Bitmap.set` and `Bitmap.clear` are these, and `Bitmap.mem_set`
and `Bitmap.mem_clear` say that they reach the same bit.

What is **held** is a matter of the history alone: a block that was allocated and not freed since.
The bitmap holds just these (`RecordsHeld`), so `fs_alloc_block` returns the lowest block that is
not held (`blocks_exclusive`).
-/

namespace LightNight

open CountedPool Transition

variable {σ : Type*} {ops : DataHeap σ}

namespace FileSystem

/-- `fs_alloc_block`: the block, and the state after it. -/
def fsAllocBlock (s : FileSystem σ) : Option (ℕ × FileSystem σ) :=
  s.blockBitmap.map fun bitmap ↦
    match Bitmap.firstClear bitmap bitmapSize fsMaxBlocks with
    | some i => (i, { s with
        blockBitmap := some (Bitmap.set bitmap i)
        freeBlocks := u32 (s.freeBlocks + 0xFFFFFFFF) })
    | none => (noBlock, s)

/-- `fs_free_block` -/
def fsFreeBlock (s : FileSystem σ) (blockNum : ℕ) : Option (FileSystem σ) :=
  if fsMaxBlocks ≤ blockNum then some s
  else if blockNum / 8 < bitmapSize then
    s.blockBitmap.map fun bitmap ↦ { s with
      blockBitmap := some (Bitmap.clear bitmap blockNum)
      freeBlocks := u32 (s.freeBlocks + 1) }
  else some s

/-- Whether the bit of a block is set. -/
def blockBit (s : FileSystem σ) (i : ℕ) : Option Bool :=
  s.blockBitmap.map fun bitmap ↦ decide (Bitmap.Mem bitmap i)

end FileSystem

/-- A call of one of the two functions, with what was allocated or freed. -/
def BlockStep (s : FileSystem σ) : PoolCall ℕ → FileSystem σ → Prop
  | .take block, t => ∃ ret, s.fsAllocBlock = some (ret, t) ∧
      block = if ret = noBlock then none else some ret
  | .release block, t => ∃ n < 2 ^ 32, block = some n ∧ s.fsFreeBlock n = some t

namespace FileSystem

variable {s t : FileSystem σ} {bitmap : Bitmap} {ret : ℕ}

/-- The blocks are few enough for the bitmap. -/
theorem fsMaxBlocks_le : fsMaxBlocks ≤ 8 * bitmapSize := by decide

/-- The value for "no block" is not the number of a block. -/
theorem ne_noBlock {i : ℕ} (hi : i < fsMaxBlocks) : i ≠ noBlock := by
  rintro rfl
  exact absurd hi (by decide)

/-! ### What the calls do -/

/-- `fs_alloc_block` takes the lowest block whose bit is not set. -/
theorem fsAllocBlock_lowest (hbitmap : s.blockBitmap = some bitmap) {i : ℕ} (hi : i < fsMaxBlocks)
    (hfree : ¬bitmap.Mem i) (hbelow : ∀ j < i, bitmap.Mem j) :
    s.fsAllocBlock = some (i, { s with
      blockBitmap := some (bitmap.set i)
      freeBlocks := u32 (s.freeBlocks + 0xFFFFFFFF) }) := by
  have hfirst := (Bitmap.firstClear_eq_some fsMaxBlocks_le).2 ⟨hi, hfree, hbelow⟩
  rw [fsAllocBlock, hbitmap, Option.map_some, hfirst]

/-- `fs_alloc_block` sets the bit of the lowest block whose bit is not set, or fails. -/
theorem fsAllocBlock_cases (hbitmap : s.blockBitmap = some bitmap) :
    (∃ i < fsMaxBlocks, ¬bitmap.Mem i ∧ (∀ j < i, bitmap.Mem j) ∧
      s.fsAllocBlock = some (i, { s with
        blockBitmap := some (bitmap.set i)
        freeBlocks := u32 (s.freeBlocks + 0xFFFFFFFF) })) ∨
    (∀ i < fsMaxBlocks, bitmap.Mem i) ∧ s.fsAllocBlock = some (noBlock, s) := by
  rcases hfirst : bitmap.firstClear bitmapSize fsMaxBlocks with - | i
  · refine Or.inr ⟨(Bitmap.firstClear_eq_none fsMaxBlocks_le).1 hfirst, ?_⟩
    rw [fsAllocBlock, hbitmap, Option.map_some, hfirst]
  · obtain ⟨hi, hfree, hbelow⟩ := (Bitmap.firstClear_eq_some fsMaxBlocks_le).1 hfirst
    exact Or.inl ⟨i, hi, hfree, hbelow, fsAllocBlock_lowest hbitmap hi hfree hbelow⟩

/-- `fs_free_block` clears the bit of a block. -/
theorem fsFreeBlock_cases (hbitmap : s.blockBitmap = some bitmap) (n : ℕ) :
    n < fsMaxBlocks ∧ s.fsFreeBlock n = some { s with
      blockBitmap := some (bitmap.clear n)
      freeBlocks := u32 (s.freeBlocks + 1) } ∨
    fsMaxBlocks ≤ n ∧ s.fsFreeBlock n = some s := by
  rw [fsFreeBlock, hbitmap]
  rcases Nat.lt_or_ge n fsMaxBlocks with hn | hn
  · have hbyte : n / 8 < bitmapSize := by
      have hle := fsMaxBlocks_le
      omega
    rw [if_neg (Nat.not_le.2 hn), if_pos hbyte]
    exact Or.inl ⟨hn, rfl⟩
  · exact Or.inr ⟨hn, if_pos hn⟩

/-! ### The bitmap and the history -/

/-- The bitmap holds the blocks that are held. -/
def RecordsHeld (s : FileSystem σ) (calls : List (PoolCall ℕ)) : Prop :=
  ∃ bitmap, s.blockBitmap = some bitmap ∧ ∀ i < fsMaxBlocks, Bitmap.Mem bitmap i ↔ Held calls i

/-- After `fs_init` no bit is set and no block is held. -/
theorem recordsHeld_init {fresh : ℕ → Inode} {bytes : ℕ → UInt8}
    (hinit : InitSucceeds ops s fresh bytes t) : t.RecordsHeld [] := by
  obtain ⟨-, -, -, hbitmap, -⟩ := hinit.tables
  refine ⟨_, hbitmap, fun i hi ↦ iff_of_false ?_ not_held_nil⟩
  have hbyte : i / 8 < bitmapSize := by
    have hle := fsMaxBlocks_le
    omega
  exact Bitmap.not_mem_of_zero (if_pos hbyte)

/-- One call. -/
theorem RecordsHeld.step {calls : List (PoolCall ℕ)} {a : PoolCall ℕ} (h : s.RecordsHeld calls)
    (hstep : BlockStep s a t) : t.RecordsHeld (calls ++ [a]) := by
  obtain ⟨bitmap, hbitmap, hheld⟩ := h
  cases a with
  | take block =>
    obtain ⟨ret, halloc, rfl⟩ := hstep
    rcases fsAllocBlock_cases hbitmap with ⟨i, hi, -, -, heq⟩ | ⟨-, heq⟩ <;>
      obtain ⟨rfl, rfl⟩ := Prod.mk.inj (Option.some.inj (heq.symm.trans halloc))
    · refine ⟨_, rfl, fun j hj ↦ ?_⟩
      rw [Bitmap.mem_set, hheld j hj, held_snoc, if_neg (ne_noBlock hi)]
      simp [eq_comm]
    · refine ⟨bitmap, hbitmap, fun j hj ↦ ?_⟩
      rw [hheld j hj, held_snoc, if_pos rfl]
      simp
  | release block =>
    obtain ⟨n, -, rfl, hfree⟩ := hstep
    rcases fsFreeBlock_cases hbitmap n with ⟨-, heq⟩ | ⟨hn, heq⟩ <;>
      obtain rfl := Option.some.inj (heq.symm.trans hfree)
    · refine ⟨_, rfl, fun j hj ↦ ?_⟩
      rw [Bitmap.mem_clear, hheld j hj, held_snoc]
      simp [eq_comm]
    · refine ⟨bitmap, hbitmap, fun j hj ↦ ?_⟩
      rw [hheld j hj, held_snoc]
      have hne : n ≠ j := by omega
      simp [hne]

end FileSystem

/-- What `fs_alloc_block` does after some calls: it returns the lowest block that is not held, or
fails and changes nothing when all are held. -/
def AllocatesLowest (s : FileSystem σ) (calls : List (PoolCall ℕ)) : Prop :=
  ∃ ret t, s.fsAllocBlock = some (ret, t) ∧ (ret = noBlock ↔ ∀ i < fsMaxBlocks, Held calls i) ∧
    (ret = noBlock → t = s) ∧
    (ret ≠ noBlock → ret < fsMaxBlocks ∧ ¬Held calls ret ∧ ∀ i < ret, Held calls i)

/-- **Blocks are exclusive.** After `fs_init` and any calls of `fs_alloc_block` and `fs_free_block`,
with any 32-bit argument, `fs_alloc_block` returns the lowest block below `FS_MAX_BLOCKS` that is
not held, and fails, changing nothing, exactly when all are held; freeing a block changes no other
bit. -/
theorem blocks_exclusive {s₀ s₁ s : FileSystem σ} {fresh : ℕ → Inode} {bytes : ℕ → UInt8}
    {calls : List (PoolCall ℕ)} (hinit : FileSystem.InitSucceeds ops s₀ fresh bytes s₁)
    (hrun : Run BlockStep s₁ calls s) : AllocatesLowest s calls ∧
      ∀ n, ∃ t, s.fsFreeBlock n = some t ∧ ∀ i ≠ n, t.blockBit i = s.blockBit i := by
  obtain ⟨bitmap, hbitmap, hheld⟩ := hrun.traced (I := fun calls s ↦ s.RecordsHeld calls)
    (fun h hstep ↦ h.step hstep) (FileSystem.recordsHeld_init hinit)
  refine ⟨?_, fun n ↦ ?_⟩
  · rcases FileSystem.fsAllocBlock_cases hbitmap with ⟨i, hi, hfree, hbelow, heq⟩ | ⟨hall, heq⟩
    · have hnot : ¬Held calls i := fun h ↦ hfree ((hheld i hi).2 h)
      have hne : i ≠ noBlock := FileSystem.ne_noBlock hi
      refine ⟨i, _, heq, iff_of_false hne fun hall ↦ hnot (hall i hi), fun h ↦ absurd h hne,
        fun _ ↦ ⟨hi, hnot, fun j hj ↦ ?_⟩⟩
      exact (hheld j (hj.trans hi)).1 (hbelow j hj)
    · exact ⟨noBlock, s, heq, iff_of_true rfl fun i hi ↦ (hheld i hi).1 (hall i hi), fun _ ↦ rfl,
        fun h ↦ absurd rfl h⟩
  · rcases FileSystem.fsFreeBlock_cases hbitmap n with ⟨-, heq⟩ | ⟨-, heq⟩ <;>
      refine ⟨_, heq, fun i hi ↦ ?_⟩
    · rw [FileSystem.blockBit, FileSystem.blockBit, hbitmap, Option.map_some, Option.map_some]
      exact congrArg some (decide_eq_decide.2 (Bitmap.mem_clear.trans (and_iff_left hi)))
    · rfl

/-- Three blocks are allocated, and the one in the middle is freed. -/
def freeMiddle : List (PoolCall ℕ) :=
  [.take (some 0), .take (some 1), .take (some 2), .release (some 1)]

theorem freeMiddle_run : ∃ s bitmap, Run BlockStep bumpInit freeMiddle s ∧
    s.blockBitmap = some bitmap ∧ ¬Bitmap.Mem bitmap 1 ∧ ∀ j < 1, Bitmap.Mem bitmap j := by
  let cleared : Bitmap := fun i ↦ if i < bitmapSize then 0 else 0
  have halloc₁ := FileSystem.fsAllocBlock_lowest
    (show bumpInit.blockBitmap = some cleared from rfl) (i := 0) (by decide) (by decide) (by decide)
  have halloc₂ := FileSystem.fsAllocBlock_lowest (s := { bumpInit with
      blockBitmap := some (cleared.set 0)
      freeBlocks := u32 (bumpInit.freeBlocks + 0xFFFFFFFF) }) rfl (i := 1)
    (by decide) (by decide) (by decide)
  have halloc₃ := FileSystem.fsAllocBlock_lowest (s := { bumpInit with
      blockBitmap := some ((cleared.set 0).set 1)
      freeBlocks := u32 (u32 (bumpInit.freeBlocks + 0xFFFFFFFF) + 0xFFFFFFFF) }) rfl (i := 2)
    (by decide) (by decide) (by decide)
  exact ⟨_, (((cleared.set 0).set 1).set 2).clear 1,
    Run.cons ⟨0, halloc₁, rfl⟩ (Run.cons ⟨1, halloc₂, rfl⟩ (Run.cons ⟨2, halloc₃, rfl⟩
      (Run.single ⟨1, by decide, rfl, rfl⟩))), rfl, by decide, by decide⟩

/-- The general theorem after these calls: the block that was freed is allocated next. -/
theorem blocks_exclusive_freeMiddle : ∃ s, Run BlockStep bumpInit freeMiddle s ∧
    (∃ t, s.fsAllocBlock = some (1, t)) ∧ AllocatesLowest s freeMiddle ∧
    ∀ n, ∃ t, s.fsFreeBlock n = some t ∧ ∀ i ≠ n, t.blockBit i = s.blockBit i := by
  obtain ⟨s, bitmap, hrun, hbitmap, hfree, hbelow⟩ := freeMiddle_run
  exact ⟨s, hrun, ⟨_, FileSystem.fsAllocBlock_lowest hbitmap (by decide) hfree hbelow⟩,
    blocks_exclusive ⟨bumpInit_eq, nofun, nofun, nofun⟩ hrun⟩

end LightNight
