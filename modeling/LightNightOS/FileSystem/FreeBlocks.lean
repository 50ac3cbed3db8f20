import LightNightOS.FileSystem.Blocks

/-!
# Counting the free blocks

`free_blocks` of the superblock is counted next to the bitmap: `fs_alloc_block` counts it down when
it sets a bit, and `fs_free_block` counts it up. But only the first of the two looks at the bit. A
block that is free already is counted again when it is freed (`FreesClear`), so the counter is ahead
of the bitmap by the number of such calls, cut to 32 bits (`Counts`). The two agree exactly if that
number is a multiple of `2 ^ 32` (`freeBlocks_counts_iff`).
-/

namespace LightNight

open CountedPool Transition

variable {σ : Type*} {ops : DataHeap σ}

namespace FileSystem

/-- `free_blocks` is the number of clear bits among the first `FS_MAX_BLOCKS` of the bitmap, and no
more than `total_blocks`. -/
def CountsFree (s : FileSystem σ) : Prop :=
  ∃ bitmap, s.blockBitmap = some bitmap ∧
    s.freeBlocks = (Bitmap.clears bitmap fsMaxBlocks).card ∧ s.freeBlocks ≤ fsMaxBlocks

/-- The call frees a block whose bit is clear. -/
def FreesClear (s : FileSystem σ) : PoolCall ℕ → Prop
  | .release (some n) => n < fsMaxBlocks ∧ s.blockBit n = some false
  | _ => False

instance (s : FileSystem σ) : DecidablePred s.FreesClear
  | .release (some _) => inferInstanceAs (Decidable (_ ∧ _))
  | .release none | .take _ => inferInstanceAs (Decidable False)

end FileSystem

/-- A call, with the number of blocks so far that were freed while their bit was clear. -/
def CountedStep (u : FileSystem σ × ℕ) (a : PoolCall ℕ) (v : FileSystem σ × ℕ) : Prop :=
  BlockStep u.1 a v.1 ∧ v.2 = if u.1.FreesClear a then u.2 + 1 else u.2

namespace FileSystem

variable {s t : FileSystem σ} {k : ℕ} {a : PoolCall ℕ}

/-- The counter is ahead of the bitmap by `k`. -/
def Counts (k : ℕ) (s : FileSystem σ) : Prop :=
  ∃ bitmap, s.blockBitmap = some bitmap ∧
    s.freeBlocks = u32 ((Bitmap.clears bitmap fsMaxBlocks).card + k)

/-- After `fs_init` the counter and the bitmap agree. -/
theorem counts_init {fresh : ℕ → Inode} {bytes : ℕ → UInt8}
    (hinit : InitSucceeds ops s fresh bytes t) :
    t.Counts 0 := by
  obtain ⟨hfree, -, -, hbitmap, -⟩ := hinit.tables
  refine ⟨_, hbitmap, ?_⟩
  have hnone : ∀ i < fsMaxBlocks,
      ¬Bitmap.Mem (fun i ↦ if i < bitmapSize then 0 else bytes i) i := by
    intro i hi
    have hle := fsMaxBlocks_le
    exact Bitmap.not_mem_of_zero (if_pos (by omega))
  rw [hfree, Bitmap.card_clears_of_zero hnone]
  rfl

/-- Counting down a counter that is ahead. -/
theorem u32_pred {c k : ℕ} : u32 (u32 (c + 1 + k) + 0xFFFFFFFF) = u32 (c + k) := by
  rw [u32, u32, u32]
  omega

/-- Counting it up. -/
theorem u32_succ {c k : ℕ} : u32 (u32 (c + k) + 1) = u32 (c + 1 + k) := by
  rw [u32, u32, u32]
  omega

/-- **One call**: the counter gets ahead where a block is freed whose bit is clear. -/
theorem Counts.step (h : s.Counts k) (hstep : BlockStep s a t) :
    t.Counts (if s.FreesClear a then k + 1 else k) := by
  obtain ⟨bitmap, hbitmap, hcount⟩ := h
  cases a with
  | take block =>
    rw [if_neg (show ¬s.FreesClear (.take block) from id)]
    obtain ⟨ret, halloc, rfl⟩ := hstep
    rcases fsAllocBlock_cases hbitmap with ⟨i, hi, hclear, -, heq⟩ | ⟨-, heq⟩ <;>
      obtain ⟨rfl, rfl⟩ := Prod.mk.inj (Option.some.inj (heq.symm.trans halloc))
    · refine ⟨_, rfl, ?_⟩
      show u32 (s.freeBlocks + 0xFFFFFFFF) = _
      rw [hcount, ← Bitmap.card_clears_set hi hclear, u32_pred]
    · exact ⟨bitmap, hbitmap, hcount⟩
  | release block =>
    obtain ⟨n, -, rfl, hfree⟩ := hstep
    rcases fsFreeBlock_cases hbitmap n with ⟨hn, heq⟩ | ⟨hn, heq⟩ <;>
      obtain rfl := Option.some.inj (heq.symm.trans hfree)
    · have hbit : s.FreesClear (.release (some n)) ↔ ¬Bitmap.Mem bitmap n := by
        show n < fsMaxBlocks ∧ s.blockBit n = some false ↔ _
        rw [blockBit, hbitmap, Option.map_some, Option.some_inj, decide_eq_false_iff_not]
        exact and_iff_right hn
      refine ⟨_, rfl, ?_⟩
      show u32 (s.freeBlocks + 1) = _
      by_cases hset : Bitmap.Mem bitmap n
      · rw [if_neg (fun h ↦ hbit.1 h hset), hcount, Bitmap.card_clears_clear hn hset, u32_succ]
      · rw [if_pos (hbit.2 hset), hcount, Bitmap.clears_clear hset, u32_succ, add_right_comm,
          add_assoc]
    · rw [if_neg (show ¬s.FreesClear (.release (some n)) from fun h ↦ Nat.not_lt.2 hn h.1)]
      exact ⟨bitmap, hbitmap, hcount⟩

/-- **The counter is right** where it is ahead by a multiple of `2 ^ 32`. -/
theorem Counts.countsFree_iff (h : s.Counts k) : s.CountsFree ↔ 2 ^ 32 ∣ k := by
  obtain ⟨bitmap, hbitmap, hcount⟩ := h
  have hle := Bitmap.card_clears_le bitmap fsMaxBlocks
  have hmax : fsMaxBlocks < 2 ^ 32 := by decide
  constructor
  · rintro ⟨bitmap', hbitmap', heq, -⟩
    obtain rfl := Option.some.inj (hbitmap.symm.trans hbitmap')
    rw [hcount, u32] at heq
    omega
  · intro hk
    have heq : s.freeBlocks = (Bitmap.clears bitmap fsMaxBlocks).card := by
      rw [hcount, u32]
      omega
    exact ⟨bitmap, hbitmap, heq, heq ▸ hle⟩

end FileSystem

/-- **When are the free blocks counted right?** After `fs_init` and any calls of `fs_alloc_block`
and `fs_free_block`, with any 32-bit argument, `free_blocks` is the number of clear bits if and only
if the number of calls that freed a block whose bit was clear is a multiple of `2 ^ 32`. -/
theorem freeBlocks_counts_iff {s₀ s₁ s : FileSystem σ} {fresh : ℕ → Inode} {bytes : ℕ → UInt8}
    {calls : List (PoolCall ℕ)} {k : ℕ} (hinit : FileSystem.InitSucceeds ops s₀ fresh bytes s₁)
    (hrun : Run CountedStep (s₁, 0) calls (s, k)) : s.CountsFree ↔ 2 ^ 32 ∣ k := by
  have hcounts : s.Counts k := by
    refine hrun.invariant (I := fun u ↦ u.1.Counts u.2) ?_ (FileSystem.counts_init hinit)
    rintro u a v hu ⟨hstep, hv⟩
    rw [hv]
    exact hu.step hstep
  exact hcounts.countsFree_iff

/-- The general theorem after block 0 was allocated and freed. -/
theorem freeBlocks_counts_bumpInit : ∃ s : FileSystem (ℕ × ByteMemory),
    Run CountedStep (bumpInit, 0) [.take (some 0), .release (some 0)] (s, 0) ∧
    (s.CountsFree ↔ 2 ^ 32 ∣ 0) := by
  let t : FileSystem (ℕ × ByteMemory) := { bumpInit with
    blockBitmap := some (Bitmap.set (fun i ↦ if i < bitmapSize then 0 else 0) 0)
    freeBlocks := u32 (bumpInit.freeBlocks + 0xFFFFFFFF) }
  have hfirst : bumpInit.fsAllocBlock = some (0, t) :=
    FileSystem.fsAllocBlock_lowest rfl (by decide) (by decide) (by decide)
  have halloc : CountedStep (bumpInit, 0) (.take (some 0)) (t, 0) := ⟨⟨0, hfirst, rfl⟩, rfl⟩
  have hset : ¬t.FreesClear (.release (some 0)) := by decide
  have hrun : Run CountedStep (bumpInit, 0) [.take (some 0), .release (some 0)] (_, 0) :=
    Run.cons halloc (Run.single ⟨⟨0, by decide, rfl, rfl⟩, (if_neg hset).symm⟩)
  exact ⟨_, hrun, freeBlocks_counts_iff ⟨bumpInit_eq, nofun, nofun, nofun⟩ hrun⟩

/-- **A free block is freed.** Right after `fs_init` block 0 is freed: there are 10241 free blocks
then. -/
theorem free_block_counted : ∃ s : FileSystem (ℕ × ByteMemory),
    Run BlockStep bumpInit [.release (some 0)] s ∧
    s.freeBlocks = fsMaxBlocks + 1 ∧ ¬s.CountsFree := by
  refine ⟨_, Run.single ⟨0, by decide, rfl, rfl⟩, rfl, ?_⟩
  rintro ⟨bitmap, -, -, hle⟩
  exact absurd hle (by decide)

end LightNight
