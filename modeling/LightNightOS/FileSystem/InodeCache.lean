import LightNightOS.Foundation.SlotTable
import LightNightOS.FileSystem.BlockCache
import LightNightOS.FileSystem.Files

/-!
# The inode cache

The cache of `fs/inode.c`: 256 slots, each with an inode and a count of references. `inode_read`
returns a pointer into the cache, which is the index of the slot here. Nothing is read from a disk:
a slot that is taken for an inode starts out with what was in it before.

What the cache is for is a keyed store (`StoreStep`): a map from inode numbers to inodes, where only
the contents with which an inode is loaded, and whether it is, are left open.

`inode_lookup` is `inode_read` under another name, and `inode_create` does not use the cache.

The keyed store is as weak as it can be: it does not say what a key that is loaded for the first
time holds, or when it is dropped. What a miss really shows is the subject of `InodeContents`, and
how the direct blocks of an inode are counted that of `DirectBlocks`.
-/

namespace LightNight

open Transition SlotTable

/-! ### Data -/

/-- `INODE_CACHE_SIZE` -/
def inodeCacheSize : ℕ := 256

/-- The length of `direct_blocks`. -/
def directBlockCount : ℕ := 12

/-- `inode_t`, with the fields that `fs.c` does not use. -/
structure DiskInode extends Inode where
  createdTime : ℕ
  modifiedTime : ℕ
  accessedTime : ℕ
  directBlocks : Fin directBlockCount → ℕ
  indirectBlock : ℕ

/-- The first direct block that is `old` becomes `new`, and `block_count` changes; -1 if there is
none. -/
def DiskInode.replaceBlock (inode : DiskInode) (old new : ℕ) (count : ℕ → ℕ) : ℤ × DiskInode :=
  match (List.finRange directBlockCount).find? fun i ↦ inode.directBlocks i = old with
  | some i => (0, { inode with
      directBlocks := Function.update inode.directBlocks i new
      blockCount := count inode.blockCount })
  | none => (-1, inode)

/-- What `inode_add_block` does to the inode. -/
def DiskInode.addBlock (blockNum : ℕ) (inode : DiskInode) : ℤ × DiskInode :=
  inode.replaceBlock noBlock blockNum fun count ↦ u32 (count + 1)

/-- What `inode_remove_block` does to the inode. -/
def DiskInode.removeBlock (blockNum : ℕ) (inode : DiskInode) : ℤ × DiskInode :=
  inode.replaceBlock blockNum noBlock fun count ↦ u32 (count + (2 ^ 32 - 1))

/-- `inode_cache_entry_t` -/
structure InodeCacheEntry where
  inodeId : ℕ
  data : DiskInode
  dirty : ℕ
  refCount : ℕ

/-- The static variable of `inode.c`. -/
structure InodeCache where
  cache : Fin inodeCacheSize → InodeCacheEntry

namespace InodeCache

/-- Assign a slot. -/
def setSlot (s : InodeCache) (i : Fin inodeCacheSize) (e : InodeCacheEntry) : InodeCache :=
  { s with cache := Function.update s.cache i e }

theorem setSlot_self (s : InodeCache) (i : Fin inodeCacheSize) (e : InodeCacheEntry) :
    (s.setSlot i e).cache i = e :=
  Function.update_self ..

/-- Setting a slot leaves the others as they were. -/
theorem setSlot_of_ne (s : InodeCache) {i j : Fin inodeCacheSize} (e : InodeCacheEntry)
    (h : j ≠ i) :
    (s.setSlot i e).cache j = s.cache j :=
  Function.update_of_ne h ..

/-- The first slot that passes a test. -/
def findSlot (s : InodeCache) (p : InodeCacheEntry → Bool) : Option (Fin inodeCacheSize) :=
  (List.finRange inodeCacheSize).find? fun i ↦ p (s.cache i)

/-! ### Operations -/

/-- `inode_cache_init` -/
def inodeCacheInit (s : InodeCache) : InodeCache where
  cache := fun i ↦ { s.cache i with inodeId := noInode, dirty := 0, refCount := 0 }

/-- `inode_delete` -/
def inodeDelete (s : InodeCache) (inodeId : ℕ) : ℤ × InodeCache :=
  if fsMaxInodes ≤ inodeId then (-1, s)
  else
    match s.findSlot fun e ↦ e.inodeId = inodeId with
    | some i => (0, s.setSlot i { s.cache i with inodeId := noInode, refCount := 0, dirty := 0 })
    | none => (0, s)

/-- `inode_read`: the slot whose inode the pointer points to. -/
def inodeRead (s : InodeCache) (inodeId : ℕ) : Option (Fin inodeCacheSize) × InodeCache :=
  if fsMaxInodes ≤ inodeId then (none, s)
  else
    match s.findSlot fun e ↦ e.inodeId = inodeId ∧ 0 < e.refCount with
    | some i => (some i, s.setSlot i { s.cache i with refCount := u32 ((s.cache i).refCount + 1) })
    | none =>
      match s.findSlot fun e ↦ e.refCount = 0 with
      | some i =>
        (some i, s.setSlot i { s.cache i with inodeId := inodeId, refCount := 1, dirty := 0 })
      | none => (none, s)

/-- `inode_write`, given what `data` points to. -/
def inodeWrite (s : InodeCache) (inodeId : ℕ) (data : Option DiskInode) : ℤ × InodeCache :=
  match data with
  | none => (-1, s)
  | some data =>
    if fsMaxInodes ≤ inodeId then (-1, s)
    else
      match s.findSlot fun e ↦ e.inodeId = inodeId with
      | some i => (0, s.setSlot i { s.cache i with data := data, dirty := 1 })
      | none => (-1, s)

/-- An update of the inode that `inode_read` returns. -/
def updateInode (s : InodeCache) (inodeId : ℕ) (f : DiskInode → ℤ × DiskInode) : ℤ × InodeCache :=
  match s.inodeRead inodeId with
  | (some i, s) =>
    let (ret, data) := f (s.cache i).data
    (ret, s.setSlot i { s.cache i with data := data })
  | (none, s) => (-1, s)

/-- `inode_add_block` -/
def inodeAddBlock (s : InodeCache) (inodeId blockNum : ℕ) : ℤ × InodeCache :=
  s.updateInode inodeId (DiskInode.addBlock blockNum)

/-- `inode_remove_block` -/
def inodeRemoveBlock (s : InodeCache) (inodeId blockNum : ℕ) : ℤ × InodeCache :=
  s.updateInode inodeId (DiskInode.removeBlock blockNum)

/-- The body of the loop of `inode_cache_flush`. -/
def flushSlot (s : InodeCache) (i : Fin inodeCacheSize) : InodeCache :=
  if (s.cache i).dirty ≠ 0 then s.setSlot i { s.cache i with dirty := 0 } else s

/-- `inode_cache_flush` -/
def inodeCacheFlush (s : InodeCache) : InodeCache :=
  (List.finRange inodeCacheSize).foldl flushSlot s

end InodeCache

/-! ### Calls -/

/-- A call of the inode layer. -/
inductive InodeCall
  | read (inodeId : ℕ)
  | write (inodeId : ℕ) (data : Option DiskInode)
  | addBlock (inodeId blockNum : ℕ)
  | removeBlock (inodeId blockNum : ℕ)
  | delete (inodeId : ℕ)
  | flush

/-- What a call returns: a number, or a pointer to an inode, given by what it points to. -/
structure InodeResult where
  ret : ℤ
  inode : Option DiskInode

/-- What a call does. -/
def InodeCache.call (s : InodeCache) : InodeCall → InodeResult × InodeCache
  | .read inodeId =>
    let (slot, t) := s.inodeRead inodeId
    (⟨0, slot.map fun i ↦ (t.cache i).data⟩, t)
  | .write inodeId data => (s.inodeWrite inodeId data).map (⟨·, none⟩) id
  | .addBlock inodeId blockNum => (s.inodeAddBlock inodeId blockNum).map (⟨·, none⟩) id
  | .removeBlock inodeId blockNum => (s.inodeRemoveBlock inodeId blockNum).map (⟨·, none⟩) id
  | .delete inodeId => (s.inodeDelete inodeId).map (⟨·, none⟩) id
  | .flush => (⟨0, none⟩, s.inodeCacheFlush)

/-- A call as a step, labelled with the call and its result. -/
def InodeStep (s : InodeCache) (a : InodeCall × InodeResult) (t : InodeCache) : Prop :=
  s.call a.1 = (a.2, t)

/-! ### The keyed store -/

/-- What the cache is for: the inodes that are cached, by their numbers. -/
abbrev InodeStore := ℕ → Option DiskInode

/-- An inode that is cached has its contents; one that is not may be loaded with any. -/
def InodeStore.Fetch (m : InodeStore) (inodeId : ℕ) (inode : DiskInode) : Prop :=
  m inodeId = some inode ∨ m inodeId = none ∧ inodeId < fsMaxInodes

/-- The calls of the store. Each of them leaves every other inode as it is. Whether an inode that is
not cached is loaded is left open. -/
inductive StoreStep : InodeStore → InodeCall × InodeResult → InodeStore → Prop
  | read {m : InodeStore} {inodeId : ℕ} {inode : DiskInode} (h : m.Fetch inodeId inode) :
      StoreStep m (.read inodeId, ⟨0, some inode⟩) (Function.update m inodeId (some inode))
  | addBlock {m : InodeStore} {inodeId : ℕ} {inode : DiskInode} (h : m.Fetch inodeId inode)
      (blockNum : ℕ) :
      StoreStep m (.addBlock inodeId blockNum, ⟨(inode.addBlock blockNum).1, none⟩)
        (Function.update m inodeId (some (inode.addBlock blockNum).2))
  | removeBlock {m : InodeStore} {inodeId : ℕ} {inode : DiskInode} (h : m.Fetch inodeId inode)
      (blockNum : ℕ) :
      StoreStep m (.removeBlock inodeId blockNum, ⟨(inode.removeBlock blockNum).1, none⟩)
        (Function.update m inodeId (some (inode.removeBlock blockNum).2))
  | readNull {m : InodeStore} {inodeId : ℕ} (h : m inodeId = none) :
      StoreStep m (.read inodeId, ⟨0, none⟩) m
  | addBlockNull {m : InodeStore} {inodeId : ℕ} (h : m inodeId = none) (blockNum : ℕ) :
      StoreStep m (.addBlock inodeId blockNum, ⟨-1, none⟩) m
  | removeBlockNull {m : InodeStore} {inodeId : ℕ} (h : m inodeId = none) (blockNum : ℕ) :
      StoreStep m (.removeBlock inodeId blockNum, ⟨-1, none⟩) m
  | write {m : InodeStore} {inodeId : ℕ} (h : m inodeId ≠ none) (inode : DiskInode) :
      StoreStep m (.write inodeId (some inode), ⟨0, none⟩) (Function.update m inodeId (some inode))
  | notCached {m : InodeStore} {inodeId : ℕ} (h : m inodeId = none) (inode : DiskInode) :
      StoreStep m (.write inodeId (some inode), ⟨-1, none⟩) m
  | writeNull (m : InodeStore) (inodeId : ℕ) : StoreStep m (.write inodeId none, ⟨-1, none⟩) m
  | delete (m : InodeStore) (inodeId : ℕ) :
      StoreStep m (.delete inodeId, ⟨if fsMaxInodes ≤ inodeId then -1 else 0, none⟩)
        (Function.update m inodeId none)
  | flush (m : InodeStore) : StoreStep m (.flush, ⟨0, none⟩) m

end LightNight
