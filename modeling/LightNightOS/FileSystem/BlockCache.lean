import LightNightOS.Foundation.ByteMemory
import LightNightOS.Foundation.Runs
import LightNightOS.Memory.Layout
import Mathlib.Data.Fintype.Card
import Mathlib.Data.List.FinRange

/-!
# The block cache

The cache of `fs/block.c`: 64 slots in front of a `block_storage` of 16 blocks. The storage is byte
memory, addressed from its start; `none` is the `NULL` that `block_cache_init` leaves when it could
not allocate it. A slot is empty when its `ref_count` is 0, and then its `block_num` is
`0xFFFFFFFF`.

The data moves as `memcpy` of `lib.h` moves it, from its first argument to its second. `block.c`
passes the destination first, so each of its copies goes the other way: `block_read` copies the
caller's buffer to the slot, and `block_write` the slot to the caller's buffer. A call is therefore
modelled with the buffer it is given and the buffer it leaves.

`block_allocate` is not part of the model: it reads and writes none of this state.

The last section says what the cache is for, without slots: each block has the contents that were
written last and the contents in the storage, a flush makes the second the first, and a read returns
the first. `BlockCacheRefinement` compares the two.
-/

namespace LightNight

/-! ### Constants -/

/-- `FS_BLOCK_SIZE` -/
def fsBlockSize : ℕ := 4096

/-- `FS_MAX_BLOCKS` -/
def fsMaxBlocks : ℕ := 10240

/-- `BLOCK_CACHE_SIZE` -/
def blockCacheSize : ℕ := 64

/-- The number of blocks that `block_storage` has room for. -/
def storageBlocks : ℕ := 16

instance : NeZero storageBlocks := ⟨by decide⟩

/-- `0xFFFFFFFF`, which stands for no block; the `block_num` of an empty slot. -/
def noBlock : ℕ := 0xFFFFFFFF

/-! ### State -/

/-- `block_t`: the bytes of a block. -/
abbrev BlockData := Fin fsBlockSize → UInt8

/-- `block_cache_entry_t` -/
structure BlockCacheEntry where
  blockNum : ℕ
  data : BlockData
  dirty : ℕ
  refCount : ℕ

/-- The static variables of `block.c`. -/
structure BlockCache where
  cache : Fin blockCacheSize → BlockCacheEntry
  storage : Option ByteMemory

/-- What a call returns: the return value, and what is in the caller's buffer, if there is one. -/
structure BlockResult where
  ret : ℤ
  buffer : Option BlockData

/-- `memcpy(block_storage + block_num * FS_BLOCK_SIZE, data, FS_BLOCK_SIZE)`: the block of the
storage goes to `data`. -/
def storageRead (m : ByteMemory) (blockNum : ℕ) : BlockData := fun i ↦
  m (u32 (blockNum * fsBlockSize) + i)

/-- `memcpy(data, block_storage + block_num * FS_BLOCK_SIZE, FS_BLOCK_SIZE)`: `data` goes to the
storage. -/
def storageWrite (m : ByteMemory) (blockNum : ℕ) (data : BlockData) : ByteMemory := fun x ↦
  if h : u32 (blockNum * fsBlockSize) ≤ x ∧ x - u32 (blockNum * fsBlockSize) < fsBlockSize then
    data ⟨x - u32 (blockNum * fsBlockSize), h.2⟩
  else m x

namespace BlockCache

/-- Assign a slot. -/
def setSlot (s : BlockCache) (i : Fin blockCacheSize) (e : BlockCacheEntry) : BlockCache :=
  { s with cache := Function.update s.cache i e }

@[simp] theorem setSlot_self (s : BlockCache) (i : Fin blockCacheSize) (e : BlockCacheEntry) :
    (s.setSlot i e).cache i = e := by
  simp [setSlot]

/-- Setting a slot leaves the others as they were. -/
theorem setSlot_of_ne (s : BlockCache) {i j : Fin blockCacheSize} (e : BlockCacheEntry)
    (h : j ≠ i) : (s.setSlot i e).cache j = s.cache j := by
  simp [setSlot, h]

/-- The first slot that passes a test. -/
def findSlot (s : BlockCache) (p : BlockCacheEntry → Bool) : Option (Fin blockCacheSize) :=
  (List.finRange blockCacheSize).find? fun i ↦ p (s.cache i)

/-! ### Operations -/

/-- `block_cache_init`: the slots are emptied; `storage` is what `malloc` returned. -/
def blockCacheInit (cache : Fin blockCacheSize → BlockCacheEntry) (storage : Option ByteMemory) :
    BlockCache where
  cache := fun i ↦ { cache i with blockNum := noBlock, dirty := 0, refCount := 0 }
  storage := storage

/-- `block_read`: on a hit the buffer goes to the slot; on a miss the old contents of the slot go to
the storage first. -/
def blockRead (s : BlockCache) (blockNum : ℕ) (buffer : Option BlockData) :
    BlockResult × BlockCache :=
  match buffer with
  | none => (⟨-1, none⟩, s)
  | some data =>
    if fsMaxBlocks ≤ blockNum then (⟨-1, some data⟩, s)
    else
      match s.findSlot fun e ↦ e.blockNum = blockNum ∧ 0 < e.refCount with
      | some i =>
        let e := s.cache i
        (⟨fsBlockSize, some data⟩,
          s.setSlot i { e with data := data, refCount := u32 (e.refCount + 1) })
      | none =>
        match s.findSlot fun e ↦ e.refCount = 0, s.storage with
        | some i, some storage =>
          let s := { s with storage := some (storageWrite storage blockNum (s.cache i).data) }
          (⟨fsBlockSize, some data⟩,
            s.setSlot i { blockNum := blockNum, data := data, dirty := 0, refCount := 1 })
        | _, _ => (⟨-1, some data⟩, s)

/-- `block_write`: the contents of the slot go to the buffer. -/
def blockWrite (s : BlockCache) (blockNum : ℕ) (buffer : Option BlockData) :
    BlockResult × BlockCache :=
  match buffer with
  | none => (⟨-1, none⟩, s)
  | some data =>
    if fsMaxBlocks ≤ blockNum then (⟨-1, some data⟩, s)
    else
      let cacheSlot := (s.findSlot fun e ↦ e.blockNum = blockNum).or
        (s.findSlot fun e ↦ e.refCount = 0)
      match cacheSlot with
      | some i =>
        let e := s.cache i
        (⟨fsBlockSize, some e.data⟩, s.setSlot i
          { e with blockNum := blockNum, dirty := 1, refCount := u32 (e.refCount + 1) })
      | none => (⟨-1, some data⟩, s)

/-- `block_free` -/
def blockFree (s : BlockCache) (blockNum : ℕ) : BlockResult × BlockCache :=
  if fsMaxBlocks ≤ blockNum then (⟨-1, none⟩, s)
  else
    match s.findSlot fun e ↦ e.blockNum = blockNum with
    | some i =>
      (⟨0, none⟩, s.setSlot i { s.cache i with blockNum := noBlock, refCount := 0, dirty := 0 })
    | none => (⟨0, none⟩, s)

/-- `block_clear`: the zeros are a buffer of its own. -/
def blockClear (s : BlockCache) (blockNum : ℕ) : BlockResult × BlockCache :=
  if fsMaxBlocks ≤ blockNum then (⟨-1, none⟩, s)
  else
    let (result, s) := s.blockWrite blockNum (some fun _ ↦ 0)
    (⟨result.ret, none⟩, s)

/-- The body of the loop of `block_cache_flush`: the block goes from the storage to the slot. -/
def flushSlot (s : BlockCache) (i : Fin blockCacheSize) : BlockCache :=
  match s.storage with
  | some storage =>
    let e := s.cache i
    if e.dirty ≠ 0 then s.setSlot i { e with data := storageRead storage e.blockNum, dirty := 0 }
    else s
  | none => s

/-- `block_cache_flush` -/
def blockCacheFlush (s : BlockCache) : BlockCache :=
  (List.finRange blockCacheSize).foldl flushSlot s

end BlockCache

/-! ### Calls -/

/-- A call of the block layer, on a block the storage holds. -/
inductive BlockCall
  | read (b : Fin storageBlocks) (buffer : Option BlockData)
  | write (b : Fin storageBlocks) (buffer : Option BlockData)
  | clear (b : Fin storageBlocks)
  | free (b : Fin storageBlocks)
  | flush

/-- What a call does. -/
def BlockCache.call (s : BlockCache) : BlockCall → BlockResult × BlockCache
  | .read b buffer => s.blockRead b buffer
  | .write b buffer => s.blockWrite b buffer
  | .clear b => s.blockClear b
  | .free b => s.blockFree b
  | .flush => (⟨0, none⟩, s.blockCacheFlush)

/-- A call as a step, labelled with the call and its result. -/
def CacheStep (s : BlockCache) (a : BlockCall × BlockResult) (t : BlockCache) : Prop :=
  s.call a.1 = (a.2, t)

/-! ### What the cache is for -/

/-- The contents of the blocks: what the callers see, and what a flush has made durable. -/
structure Contents where
  logical : Fin storageBlocks → BlockData
  durable : Fin storageBlocks → BlockData

/-- How a call moves the contents. -/
def Contents.next (c : Contents) : BlockCall → Contents
  | .write b (some data) => { c with logical := Function.update c.logical b data }
  | .clear b => { c with logical := Function.update c.logical b fun _ ↦ 0 }
  | .free b => { c with logical := Function.update c.logical b (c.durable b) }
  | .flush => { c with durable := c.logical }
  | .read _ _ | .write _ none => c

/-- What the callers may rely on, call by call: a read fills the buffer with the logical content.
What a write leaves in its buffer is left open. -/
inductive ContentStep : Contents → BlockCall × BlockResult → Contents → Prop
  | read (c : Contents) (b : Fin storageBlocks) (data : BlockData) :
      ContentStep c (.read b (some data), ⟨fsBlockSize, some (c.logical b)⟩) c
  | readNull (c : Contents) (b : Fin storageBlocks) :
      ContentStep c (.read b none, ⟨-1, none⟩) c
  | write (c : Contents) (b : Fin storageBlocks) (data : BlockData) (buffer : Option BlockData) :
      ContentStep c (.write b (some data), ⟨fsBlockSize, buffer⟩) (c.next (.write b (some data)))
  | writeNull (c : Contents) (b : Fin storageBlocks) :
      ContentStep c (.write b none, ⟨-1, none⟩) c
  | clear (c : Contents) (b : Fin storageBlocks) :
      ContentStep c (.clear b, ⟨fsBlockSize, none⟩) (c.next (.clear b))
  | free (c : Contents) (b : Fin storageBlocks) :
      ContentStep c (.free b, ⟨0, none⟩) (c.next (.free b))
  | flush (c : Contents) : ContentStep c (.flush, ⟨0, none⟩) (c.next .flush)

end LightNight
