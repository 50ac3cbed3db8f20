import LightNightOS.FileSystem.BlockCacheRefinement

/-!
# Where the block cache accesses its storage

The functions of `fs/block.c` accept every block below `FS_MAX_BLOCKS`, and the storage has room for
16 blocks. `BlockCache.accesses` lists the offsets at which a call copies a block to or from the
storage: at most one for a read, and one for each dirty slot for a flush.

A block that is written is not looked at until it is flushed, so what has to be carried along is
which blocks can be dirty (`DirtyAccepted`): they have been accepted, hence their offsets do not
wrap, and an offset is inside the storage exactly if the block is one of the 16 (`access_inBounds`).
-/

namespace LightNight

open Transition

/-- The bytes that `block_cache_init` allocates. -/
def storageSize : ℕ := fsBlockSize * storageBlocks

/-- A call of the block layer, on any block. -/
inductive CacheCall
  | read (b : ℕ) (buffer : Option BlockData)
  | write (b : ℕ) (buffer : Option BlockData)
  | clear (b : ℕ)
  | free (b : ℕ)
  | flush

namespace BlockCache

/-- What a call does. -/
def exec (s : BlockCache) : CacheCall → BlockResult × BlockCache
  | .read b buffer => s.blockRead b buffer
  | .write b buffer => s.blockWrite b buffer
  | .clear b => s.blockClear b
  | .free b => s.blockFree b
  | .flush => (⟨0, none⟩, s.blockCacheFlush)

/-! ### Accesses

The offset of a block is its number times 4096, cut to 32 bits. `accesses` only says where a call
copies to or from; what it copies is in `BlockCache`. -/

/-- The offset of the block that `block_read` copies to the storage, if it does. -/
def readAccesses (s : BlockCache) (blockNum : ℕ) (buffer : Option BlockData) : List ℕ :=
  if buffer = none ∨ fsMaxBlocks ≤ blockNum then []
  else
    match s.findSlot fun e ↦ e.blockNum = blockNum ∧ 0 < e.refCount with
    | some _ => []
    | none =>
      match s.findSlot fun e ↦ e.refCount = 0, s.storage with
      | some _, some _ => [u32 (blockNum * fsBlockSize)]
      | _, _ => []

/-- The offset of the block that the body of the loop of `block_cache_flush` copies from the
storage, if it does. -/
def flushSlotAccess (s : BlockCache) (i : Fin blockCacheSize) : List ℕ :=
  match s.storage with
  | some _ => if (s.cache i).dirty ≠ 0 then [u32 ((s.cache i).blockNum * fsBlockSize)] else []
  | none => []

/-- The offsets of the blocks that the loop of `block_cache_flush` copies, over some slots. -/
def flushAccesses : List (Fin blockCacheSize) → BlockCache → List ℕ
  | [], _ => []
  | i :: l, s => s.flushSlotAccess i ++ flushAccesses l (s.flushSlot i)

/-- The offsets at which a call copies a block from or to the storage. -/
def accesses (s : BlockCache) : CacheCall → List ℕ
  | .read b buffer => s.readAccesses b buffer
  | .flush => flushAccesses (List.finRange blockCacheSize) s
  | _ => []

/-- **The condition**: a read that goes to the storage, and every slot that a flush writes back, is
of a block the storage has room for. -/
def InStorage (s : BlockCache) : CacheCall → Prop
  | .read b buffer =>
    s.storage.isSome → buffer ≠ none → b < fsMaxBlocks →
      (∀ i, (s.cache i).blockNum = b → (s.cache i).refCount = 0) →
      (∃ i, (s.cache i).refCount = 0) → b < storageBlocks
  | .flush => s.storage.isSome → ∀ i, (s.cache i).dirty ≠ 0 → (s.cache i).blockNum < storageBlocks
  | _ => True

/-- Only blocks that have been accepted are dirty. -/
def DirtyAccepted (s : BlockCache) : Prop :=
  ∀ i, (s.cache i).dirty ≠ 0 → (s.cache i).blockNum < fsMaxBlocks

end BlockCache

/-- A call as a step, labelled with the call. -/
def StorageStep (s : BlockCache) (a : CacheCall) (t : BlockCache) : Prop := t = (s.exec a).2

section Accesses

variable {s : BlockCache}

/-- **An access is inside the storage** exactly if its block is one of the 16. -/
theorem access_inBounds {b : ℕ} (hb : b < fsMaxBlocks) :
    u32 (b * fsBlockSize) + fsBlockSize ≤ storageSize ↔ b < storageBlocks := by
  have hwrap : u32 (b * fsBlockSize) = b * fsBlockSize := by
    refine u32_of_lt ?_
    rw [fsMaxBlocks] at hb
    rw [fsBlockSize]
    omega
  rw [hwrap, storageSize, fsBlockSize, storageBlocks]
  omega

/-! ### Reading -/

/-- A read copies from the storage where the block is in no slot in use and a slot is free. -/
theorem mem_readAccesses {b off : ℕ} {buffer : Option BlockData} :
    off ∈ s.readAccesses b buffer ↔ s.storage.isSome ∧ buffer ≠ none ∧ b < fsMaxBlocks ∧
      (∀ i, (s.cache i).blockNum = b → (s.cache i).refCount = 0) ∧
      (∃ i, (s.cache i).refCount = 0) ∧ off = u32 (b * fsBlockSize) := by
  rw [BlockCache.readAccesses]
  split
  case isTrue hargs =>
    refine iff_of_false (List.not_mem_nil) ?_
    rintro ⟨-, hbuffer, hb, -⟩
    exact hargs.elim hbuffer (Nat.not_le_of_lt hb)
  case isFalse hargs =>
    rw [not_or, Nat.not_le] at hargs
    rcases hhit : s.findSlot fun e ↦ e.blockNum = b ∧ 0 < e.refCount with - | i
    · have hmiss : ∀ i, (s.cache i).blockNum = b → (s.cache i).refCount = 0 := by
        intro i hi
        simpa [hi] using findSlot_none hhit i
      rcases hfree : s.findSlot fun e ↦ e.refCount = 0 with - | i
      · refine iff_of_false List.not_mem_nil ?_
        rintro ⟨-, -, -, -, ⟨i, hi⟩, -⟩
        simpa [hi] using findSlot_none hfree i
      · have hi : (s.cache i).refCount = 0 := by simpa using findSlot_some hfree
        rcases s.storage with - | m
        · exact iff_of_false List.not_mem_nil fun h ↦ Bool.noConfusion h.1
        · rw [List.mem_singleton]
          exact ⟨fun h ↦ ⟨rfl, hargs.1, hargs.2, hmiss, ⟨i, hi⟩, h⟩, fun h ↦ h.2.2.2.2.2⟩
    · refine iff_of_false List.not_mem_nil ?_
      rintro ⟨-, -, -, hmiss, -⟩
      obtain ⟨hnum, hpos⟩ : (s.cache i).blockNum = b ∧ 0 < (s.cache i).refCount := by
        simpa using findSlot_some hhit
      exact hpos.ne' (hmiss i hnum)

/-- `block_read` changes the storage at the offset of its access only. -/
theorem blockRead_storage {b x : ℕ} {buffer : Option BlockData}
    (h : ∀ off ∈ s.readAccesses b buffer, ¬(off ≤ x ∧ x < off + fsBlockSize)) :
    (s.blockRead b buffer).2.storage.map (fun m ↦ m x) = s.storage.map fun m ↦ m x := by
  cases buffer with
  | none => rfl
  | some data =>
    rw [BlockCache.readAccesses] at h
    rw [BlockCache.blockRead]
    dsimp only
    split
    · rfl
    case isFalse hb =>
      rw [if_neg (by simpa using hb)] at h
      generalize s.findSlot (fun e ↦ e.blockNum = b ∧ 0 < e.refCount) = hit at *
      generalize s.findSlot (fun e ↦ e.refCount = 0) = free at *
      rcases hit with - | i
      · rcases free with - | i
        · rfl
        rcases hstorage : s.storage with - | m
        · exact congrArg _ hstorage
        · rw [hstorage] at h
          have hout := h _ (List.mem_singleton_self _)
          change some (storageWrite m b _ x) = some (m x)
          rw [storageWrite, dif_neg fun hin ↦ hout ⟨hin.1, by omega⟩]
      · rfl

/-! ### Flushing -/

/-- Writing back a slot changes no other slot, and of this one the flag only. -/
theorem flushSlot_frame (s : BlockCache) (i : Fin blockCacheSize) :
    (∀ j, j ≠ i → (s.flushSlot i).cache j = s.cache j) ∧
      (∀ j, ((s.flushSlot i).cache j).blockNum = (s.cache j).blockNum ∧
        (((s.flushSlot i).cache j).dirty ≠ 0 → (s.cache j).dirty ≠ 0)) ∧
      (s.flushSlot i).storage = s.storage := by
  rw [BlockCache.flushSlot]
  split
  · dsimp only
    split
    · refine ⟨fun j hj ↦ s.setSlot_of_ne _ hj, fun j ↦ ?_, rfl⟩
      by_cases hj : j = i
      · rw [hj, s.setSlot_self]
        exact ⟨rfl, fun h ↦ absurd rfl h⟩
      · rw [s.setSlot_of_ne _ hj]
        exact ⟨rfl, id⟩
    · exact ⟨fun _ _ ↦ rfl, fun _ ↦ ⟨rfl, id⟩, rfl⟩
  · exact ⟨fun _ _ ↦ rfl, fun _ ↦ ⟨rfl, id⟩, rfl⟩

/-- A flush of a slot copies to the storage where the slot is dirty. -/
theorem mem_flushSlotAccess {off : ℕ} {i : Fin blockCacheSize} :
    off ∈ s.flushSlotAccess i ↔ s.storage.isSome ∧ (s.cache i).dirty ≠ 0 ∧
      off = u32 ((s.cache i).blockNum * fsBlockSize) := by
  rw [BlockCache.flushSlotAccess]
  rcases s.storage with - | m
  · exact iff_of_false List.not_mem_nil fun h ↦ Bool.noConfusion h.1
  · dsimp only
    split
    case isTrue hdirty =>
      rw [List.mem_singleton]
      exact ⟨fun h ↦ ⟨rfl, hdirty, h⟩, fun h ↦ h.2.2⟩
    case isFalse hclean => exact iff_of_false List.not_mem_nil fun h ↦ hclean h.2.1

/-- A flush copies what is in the dirty slots, each to the place of its block. -/
theorem mem_flushAccesses {off : ℕ} {l : List (Fin blockCacheSize)} (hl : l.Nodup) :
    off ∈ BlockCache.flushAccesses l s ↔ s.storage.isSome ∧ ∃ i ∈ l, (s.cache i).dirty ≠ 0 ∧
      off = u32 ((s.cache i).blockNum * fsBlockSize) := by
  induction l generalizing s with
  | nil => exact iff_of_false List.not_mem_nil fun ⟨_, _, h, _⟩ ↦ List.not_mem_nil h
  | cons i l ih =>
    obtain ⟨hi, hl⟩ := List.nodup_cons.1 hl
    obtain ⟨hrest, -, hsame⟩ := flushSlot_frame s i
    have hother : ∀ j ∈ l, (s.flushSlot i).cache j = s.cache j := fun j hj ↦
      hrest j fun heq ↦ hi (heq ▸ hj)
    rw [BlockCache.flushAccesses, List.mem_append, mem_flushSlotAccess, ih hl, hsame]
    constructor
    · rintro (⟨hstorage, h⟩ | ⟨hstorage, j, hj, h⟩)
      · exact ⟨hstorage, i, List.mem_cons_self, h⟩
      · exact ⟨hstorage, j, List.mem_cons_of_mem _ hj, by rwa [hother j hj] at h⟩
    · rintro ⟨hstorage, j, hj, h⟩
      rcases List.mem_cons.1 hj with rfl | hj
      · exact Or.inl ⟨hstorage, h⟩
      · exact Or.inr ⟨hstorage, j, hj, by rwa [hother j hj]⟩

/-- A flush depends on the storage at the offsets of its accesses only. -/
theorem blockCacheFlush_congr {l : List (Fin blockCacheSize)} {m m' : ByteMemory}
    (h : ∀ off ∈ BlockCache.flushAccesses l { s with storage := some m },
      ∀ x, off ≤ x → x < off + fsBlockSize → m x = m' x) :
    (l.foldl BlockCache.flushSlot { s with storage := some m }).cache =
      (l.foldl BlockCache.flushSlot { s with storage := some m' }).cache := by
  induction l generalizing s with
  | nil => rfl
  | cons i l ih =>
    have hslot : ∃ t : BlockCache,
        { s with storage := some m }.flushSlot i = { t with storage := some m } ∧
        { s with storage := some m' }.flushSlot i = { t with storage := some m' } := by
      rw [BlockCache.flushSlot, BlockCache.flushSlot]
      dsimp only
      by_cases hdirty : (s.cache i).dirty ≠ 0
      · have hread : storageRead m (s.cache i).blockNum = storageRead m' (s.cache i).blockNum :=
          funext fun j ↦ h _ (List.mem_append_left _ (mem_flushSlotAccess.2 ⟨rfl, hdirty, rfl⟩)) _
            (Nat.le_add_right _ _) (Nat.add_lt_add_left j.isLt _)
        rw [if_pos hdirty, if_pos hdirty, hread]
        exact ⟨s.setSlot i _, rfl, rfl⟩
      · rw [if_neg hdirty, if_neg hdirty]
        exact ⟨s, rfl, rfl⟩
    obtain ⟨t, ht, ht'⟩ := hslot
    rw [List.foldl_cons, List.foldl_cons, ht, ht']
    refine ih fun off hoff ↦ h off (List.mem_append_right _ ?_)
    rwa [ht]

/-! ### Dirty blocks

The blocks that may be dirty have been accepted by a check against `FS_MAX_BLOCKS`, which is far
below the number at which the offset would wrap. -/

/-- Assigning a slot that is clean, or holds an accepted block. -/
theorem BlockCache.DirtyAccepted.setSlot (h : s.DirtyAccepted) {i : Fin blockCacheSize}
    {e : BlockCacheEntry} (he : e.dirty ≠ 0 → e.blockNum < fsMaxBlocks) :
    (s.setSlot i e).DirtyAccepted := by
  intro j
  by_cases hj : j = i
  · rw [hj, s.setSlot_self]
    exact he
  · rw [s.setSlot_of_ne e hj]
    exact h j

theorem BlockCache.DirtyAccepted.flushSlot (h : s.DirtyAccepted) (i : Fin blockCacheSize) :
    (s.flushSlot i).DirtyAccepted := fun j hdirty ↦
  have hframe := (flushSlot_frame s i).2.1 j
  hframe.1 ▸ h j (hframe.2 hdirty)

theorem BlockCache.DirtyAccepted.read (h : s.DirtyAccepted) (b : ℕ) (buffer : Option BlockData) :
    (s.blockRead b buffer).2.DirtyAccepted := by
  cases buffer with
  | none => exact h
  | some data =>
    rw [BlockCache.blockRead]
    dsimp only
    split
    · exact h
    split
    case h_1 i _ => exact h.setSlot (h i)
    case h_2 =>
      split
      · exact DirtyAccepted.setSlot (s := { s with storage := _ }) h
          fun hdirty ↦ absurd rfl hdirty
      · exact h

/-- A write makes a slot dirty only for a block that was accepted. -/
theorem BlockCache.DirtyAccepted.write (h : s.DirtyAccepted) (b : ℕ) (buffer : Option BlockData) :
    (s.blockWrite b buffer).2.DirtyAccepted := by
  cases buffer with
  | none => exact h
  | some data =>
    rw [BlockCache.blockWrite]
    dsimp only
    split
    · exact h
    case isFalse hb =>
      split
      · exact h.setSlot fun _ ↦ Nat.lt_of_not_le hb
      · exact h

/-- **Every call keeps the dirty blocks accepted.** -/
theorem BlockCache.DirtyAccepted.exec (h : s.DirtyAccepted) (a : CacheCall) :
    (s.exec a).2.DirtyAccepted := by
  cases a with
  | read b buffer => exact h.read b buffer
  | write b buffer => exact h.write b buffer
  | clear b =>
    rw [BlockCache.exec, BlockCache.blockClear]
    split
    · exact h
    · exact h.write b _
  | free b =>
    rw [BlockCache.exec, BlockCache.blockFree]
    split
    · exact h
    split
    · exact h.setSlot fun hdirty ↦ absurd rfl hdirty
    · exact h
  | flush =>
    rw [BlockCache.exec, BlockCache.blockCacheFlush]
    generalize List.finRange blockCacheSize = l
    induction l generalizing s with
    | nil => exact h
    | cons i l ih => exact ih (h.flushSlot i)

/-- **One call**: its accesses are inside the storage exactly under the condition. -/
theorem BlockCache.DirtyAccepted.accesses_inBounds (h : s.DirtyAccepted) (a : CacheCall) :
    (∀ off ∈ s.accesses a, off + fsBlockSize ≤ storageSize) ↔ s.InStorage a := by
  cases a with
  | read b buffer =>
    constructor
    · intro hin hstorage hbuffer hb hmiss hfree
      exact (access_inBounds hb).1
        (hin _ (mem_readAccesses.2 ⟨hstorage, hbuffer, hb, hmiss, hfree, rfl⟩))
    · intro hin off hoff
      obtain ⟨hstorage, hbuffer, hb, hmiss, hfree, rfl⟩ := mem_readAccesses.1 hoff
      exact (access_inBounds hb).2 (hin hstorage hbuffer hb hmiss hfree)
  | flush =>
    have hmem := fun off ↦ @mem_flushAccesses s off _ (List.nodup_finRange blockCacheSize)
    constructor
    · intro hin hstorage i hdirty
      exact (access_inBounds (h i hdirty)).1
        (hin _ ((hmem _).2 ⟨hstorage, i, List.mem_finRange i, hdirty, rfl⟩))
    · intro hin off hoff
      obtain ⟨hstorage, i, -, hdirty, rfl⟩ := (hmem off).1 hoff
      exact (access_inBounds (h i hdirty)).2 (hin hstorage i hdirty)
  | write _ _ | clear _ | free _ =>
    exact iff_of_true (fun _ hoff ↦ absurd hoff List.not_mem_nil) trivial

end Accesses

/-! ### The blocks the storage holds -/

/-- A call on a block the storage holds, among the calls on any block. -/
def BlockCall.onAny : BlockCall → CacheCall
  | .read b buffer => .read b buffer
  | .write b buffer => .write b buffer
  | .clear b => .clear b
  | .free b => .free b
  | .flush => .flush

/-- The calls on blocks of the storage are calls on blocks of any number. -/
theorem call_eq_exec (s : BlockCache) (a : BlockCall) : s.call a = s.exec a.onAny := by
  cases a <;> rfl

/-- Calls on the blocks the storage holds never leave it. -/
theorem SlotsOk.inStorage {k : ℕ} {s : BlockCache} (h : SlotsOk k s) (a : BlockCall) :
    s.InStorage a.onAny := by
  cases a with
  | read b buffer => exact fun _ _ _ _ _ ↦ b.isLt
  | flush =>
    intro _ i hdirty
    obtain ⟨b, hb⟩ := h.full i fun hzero ↦ hdirty (h.empty i hzero).2
    exact hb ▸ b.isLt
  | write _ _ | clear _ | free _ => trivial

/-! ### Every run -/

/-- **Which accesses are inside the storage.** In every state reached from `block_cache_init` by
calls that meet the condition, on any blocks, the accesses of a call are inside the allocation
exactly if the call meets it too: a read miss is of a block below 16, and so is every block that a
flush finds dirty. -/
theorem storage_inBounds {cache : Fin blockCacheSize → BlockCacheEntry}
    {storage : Option ByteMemory} {calls : List CacheCall} {s : BlockCache}
    (hrun : Run (Guarded BlockCache.InStorage StorageStep)
      (BlockCache.blockCacheInit cache storage) calls s) (a : CacheCall) :
    (∀ off ∈ s.accesses a, off + fsBlockSize ≤ storageSize) ↔ s.InStorage a := by
  have hstart : (BlockCache.blockCacheInit cache storage).DirtyAccepted :=
    fun _ hdirty ↦ absurd rfl hdirty
  have hdirty : s.DirtyAccepted := by
    refine Run.invariant (I := BlockCache.DirtyAccepted) ?_ hrun hstart
    exact fun h hstep ↦ hstep.2 ▸ h.exec _
  exact hdirty.accesses_inBounds a

/-- The cache as `block_cache_init` leaves it, over a storage of zeros. -/
def emptyCache : BlockCache :=
  BlockCache.blockCacheInit (fun _ ↦ ⟨0, fun _ ↦ 0, 0, 0⟩) (some fun _ ↦ 0)

/-- The general theorem on a read of the last block after a write of the first. -/
theorem storage_inBounds_lastBlock : ∃ s,
    Run (Guarded BlockCache.InStorage StorageStep) emptyCache [.write 0 (some fun _ ↦ 7)] s ∧
    ∀ off ∈ s.accesses (.read 15 (some fun _ ↦ 0)), off + fsBlockSize ≤ storageSize := by
  have hstep : Guarded BlockCache.InStorage StorageStep emptyCache (.write 0 (some fun _ ↦ 7))
    (emptyCache.exec (.write 0 (some fun _ ↦ 7))).2 := ⟨trivial, rfl⟩
  exact ⟨_, Run.single hstep, (storage_inBounds (Run.single hstep) (.read 15 (some fun _ ↦ 0))).2
    fun _ _ _ _ _ ↦ (by decide : 15 < storageBlocks)⟩

/-- **Accesses outside the storage**: block 16 is accepted, and both a read miss and a flush after a
write access the block behind the allocation. -/
theorem accesses_outside_storage : ∃ s,
    Run StorageStep emptyCache [.write 16 (some fun _ ↦ 7)] s ∧
    16 * fsBlockSize ∈ emptyCache.accesses (.read 16 (some fun _ ↦ 0)) ∧
    16 * fsBlockSize ∈ s.accesses .flush ∧
    16 < fsMaxBlocks ∧ ¬16 * fsBlockSize + fsBlockSize ≤ storageSize := by
  have hread : 16 * fsBlockSize ∈ emptyCache.readAccesses 16 (some fun _ ↦ 0) :=
    mem_readAccesses.2 ⟨rfl, Option.some_ne_none _, by decide, fun _ _ ↦ rfl,
      ⟨⟨0, by decide⟩, rfl⟩, rfl⟩
  refine ⟨_, Run.single rfl, hread, ?_, by decide, by decide⟩
  exact (mem_flushAccesses (List.nodup_finRange _)).2
    ⟨rfl, ⟨0, by decide⟩, List.mem_finRange _, by decide +kernel, by decide +kernel⟩

end LightNight
