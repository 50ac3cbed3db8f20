import LightNightOS.FileSystem.BlockStorage
import LightNightOS.Foundation.CountedSlots
import LightNightOS.Foundation.SlotTable

/-!
# Room in the block cache

No function of `fs/block.c` gives up a slot on its own: reads and writes count its `ref_count` up, a
flush leaves it alone, and only `block_free` of its block sets it to 0. A block is **used** from
when it is read, written or cleared to when it is freed, and each slot in use has a block of its own
that is used (`CountedSlots.Holds`). So there is room while fewer than 64 blocks are used, and a
call on a block that no slot has fails when no `ref_count` is 0 (`room_after_flush`).

* `UsesSlots.exec` — any call, with the blocks that are used after it;
* `Places.ret_eq_iff` — a call that needs a slot succeeds exactly if there is one;
* `room_after_flush` — every run, and the flush behind it.
-/

namespace LightNight

open CountedSlots Transition

namespace BlockCache

/-- The block and the `ref_count` of each slot. -/
def slots (s : BlockCache) (i : Fin blockCacheSize) : ℕ × ℕ :=
  ((s.cache i).blockNum, (s.cache i).refCount)

/-- The blocks that are used after a call. -/
def usedAfter (s : BlockCache) (used : Finset ℕ) : CacheCall → Finset ℕ
  | .read b buffer => if (s.blockRead b buffer).1.ret = -1 then used else insert b used
  | .write b buffer => if (s.blockWrite b buffer).1.ret = -1 then used else insert b used
  | .clear b => if (s.blockClear b).1.ret = -1 then used else insert b used
  | .free b => if (s.blockFree b).1.ret = -1 then used else used.erase b
  | .flush => used

/-- There is a slot for the block: one has it, or one has no `ref_count`. -/
def HasRoom (s : BlockCache) (b : ℕ) : Prop :=
  ∃ i, (s.cache i).blockNum = b ∨ (s.cache i).refCount = 0

end BlockCache

/-- A call, with the blocks that are used. -/
def UsedStep (u : BlockCache × Finset ℕ) (a : CacheCall) (v : BlockCache × Finset ℕ) : Prop :=
  StorageStep u.1 a v.1 ∧ v.2 = u.1.usedAfter u.2 a

section Room

variable {s : BlockCache} {used : Finset ℕ} {i : Fin blockCacheSize} {b : ℕ}

theorem slots_setSlot (e : BlockCacheEntry) :
    (s.setSlot i e).slots = Function.update s.slots i (e.blockNum, e.refCount) := by
  funext j
  rcases eq_or_ne j i with rfl | hji
  · rw [Function.update_self, BlockCache.slots, s.setSlot_self]
  · rw [Function.update_of_ne hji, BlockCache.slots, s.setSlot_of_ne e hji]
    rfl

/-- The search finds the first slot that passes the test. -/
theorem findSlot_first {p : BlockCacheEntry → Bool} (h : s.findSlot p = some i) :
    p (s.cache i) ∧ ∀ j, p (s.cache j) → i ≤ j :=
  SlotTable.find_eq_some_iff.1 h

/-- What a call does that needs a slot for block `b`: it fails for want of one, or counts the first
slot with the block, or takes the first slot without a `ref_count` if none of the block's slots has
one. -/
def Places (s : BlockCache) (b : ℕ) (ret : ℤ) (t : BlockCache) : Prop :=
  ret = -1 ∧ t = s ∧ ¬s.HasRoom b ∨
  ret = fsBlockSize ∧ s.HasRoom b ∧ t.storage.isSome ∧
    ∃ i c, t.slots = Function.update s.slots i (b, c) ∧
      ((s.slots i).1 = b ∧ (∀ j, (s.slots j).1 = b → i ≤ j) ∨
        (∀ j, (s.slots j).2 = 0 → i ≤ j) ∧ ∀ j, (s.slots j).1 = b → (s.slots j).2 = 0)

/-- The cache has its storage, and the slots in use hold used blocks, which are below
`FS_MAX_BLOCKS`. -/
structure UsesSlots (s : BlockCache) (used : Finset ℕ) : Prop where
  storage : s.storage.isSome
  holds : Holds s.slots used
  lt : ∀ b ∈ used, b < fsMaxBlocks

theorem usesSlots_init (cache : Fin blockCacheSize → BlockCacheEntry) (m : ByteMemory) :
    UsesSlots (BlockCache.blockCacheInit cache (some m)) ∅ :=
  ⟨rfl, holds_empty fun _ ↦ rfl, fun _ h ↦ absurd h (Finset.notMem_empty _)⟩

/-! ### What each call does

A read and a write look for a slot in the same two steps, by the number of the block and then by a
count of 0; `Places` is what comes of that, with the return value. Clearing a block is a write of
zeros. -/

/-- A read places its block, where there is room. -/
theorem UsesSlots.read (h : UsesSlots s used) (hb : b < fsMaxBlocks) (data : BlockData) :
    Places s b (s.blockRead b (some data)).1.ret (s.blockRead b (some data)).2 := by
  rw [BlockCache.blockRead]
  dsimp only
  rw [if_neg (Nat.not_le.2 hb)]
  rcases hhit : s.findSlot fun e ↦ e.blockNum = b ∧ 0 < e.refCount with - | i
  · have hmiss : ∀ j, (s.cache j).blockNum = b → (s.cache j).refCount = 0 := by
      intro j hj
      simpa [hj] using findSlot_none hhit j
    rcases hfree : s.findSlot fun e ↦ e.refCount = 0 with - | i
    · refine Or.inl ⟨rfl, rfl, ?_⟩
      rintro ⟨j, hj⟩
      exact absurd (hj.elim (hmiss j) id) (by simpa using findSlot_none hfree j)
    · obtain ⟨hi, hfirst⟩ := findSlot_first hfree
      obtain ⟨m, hm⟩ := Option.isSome_iff_exists.1 h.storage
      rw [hm]
      refine Or.inr ⟨rfl, ⟨i, Or.inr (by simpa using hi)⟩, rfl, i, 1, slots_setSlot _,
        Or.inr ⟨?_, hmiss⟩⟩
      exact fun j hj ↦ hfirst j (decide_eq_true hj)
  · obtain ⟨hi, -⟩ := findSlot_first hhit
    obtain ⟨hnum, hpos⟩ := of_decide_eq_true hi
    have hslots := slots_setSlot (s := s) (i := i)
      { s.cache i with data := data, refCount := u32 ((s.cache i).refCount + 1) }
    rw [hnum] at hslots
    refine Or.inr ⟨rfl, ⟨i, Or.inl hnum⟩, h.storage, i, _, hslots, Or.inl ⟨hnum, fun j hj ↦ ?_⟩⟩
    exact h.holds.first i j hpos.ne' (hj.trans hnum.symm)

theorem UsesSlots.write (h : UsesSlots s used) (hb : b < fsMaxBlocks) (data : BlockData) :
    Places s b (s.blockWrite b (some data)).1.ret (s.blockWrite b (some data)).2 := by
  rw [BlockCache.blockWrite]
  dsimp only
  rw [if_neg (Nat.not_le.2 hb)]
  rcases hhit : s.findSlot fun e ↦ e.blockNum = b with - | i
  · have hmiss : ∀ j, (s.cache j).blockNum ≠ b := fun j ↦ by simpa using findSlot_none hhit j
    rcases hfree : s.findSlot fun e ↦ e.refCount = 0 with - | i
    · refine Or.inl ⟨rfl, rfl, ?_⟩
      rintro ⟨j, hj⟩
      exact absurd (hj.resolve_left (hmiss j)) (by simpa using findSlot_none hfree j)
    · obtain ⟨hi, hfirst⟩ := findSlot_first hfree
      refine Or.inr ⟨rfl, ⟨i, Or.inr (by simpa using hi)⟩, h.storage, i, _, slots_setSlot _,
        Or.inr ⟨?_, fun j hj ↦ absurd hj (hmiss j)⟩⟩
      exact fun j hj ↦ hfirst j (decide_eq_true hj)
  · obtain ⟨hi, hfirst⟩ := findSlot_first hhit
    have hnum : (s.cache i).blockNum = b := of_decide_eq_true hi
    refine Or.inr ⟨rfl, ⟨i, Or.inl hnum⟩, h.storage, i, _, slots_setSlot _, Or.inl ⟨hnum, ?_⟩⟩
    exact fun j hj ↦ hfirst j (decide_eq_true hj)

/-- **A call that needs a slot** keeps the slots in order. -/
theorem UsesSlots.places {t : BlockCache} {ret : ℤ} (h : UsesSlots s used) (hb : b < fsMaxBlocks)
    (hplaces : Places s b ret t) : UsesSlots t (if ret = -1 then used else insert b used) := by
  rcases hplaces with ⟨rfl, rfl, -⟩ | ⟨rfl, -, hstorage, i, c, hslots, hwhere⟩
  · rwa [if_pos rfl]
  · rw [if_neg (by decide)]
    refine ⟨hstorage, ?_, fun x hx ↦ ?_⟩
    · rw [hslots]
      rcases hwhere with ⟨hi, hfirst⟩ | ⟨hfirst, hnone⟩
      · exact h.holds.count hi hfirst
      · exact h.holds.fill hfirst hnone
    · rcases Finset.mem_insert.1 hx with rfl | hx
      exacts [hb, h.lt x hx]

theorem UsesSlots.free (h : UsesSlots s used) (hb : b < fsMaxBlocks) :
    UsesSlots (s.blockFree b).2 (used.erase b) := by
  have hlt : ∀ x ∈ used.erase b, x < fsMaxBlocks := fun x hx ↦ h.lt x (Finset.mem_of_mem_erase hx)
  rw [BlockCache.blockFree, if_neg (Nat.not_le.2 hb)]
  rcases hhit : s.findSlot fun e ↦ e.blockNum = b with - | i
  · have hmiss : ∀ j, (s.cache j).blockNum ≠ b := fun j ↦ by simpa using findSlot_none hhit j
    exact ⟨h.storage, h.holds.erase hmiss, hlt⟩
  · obtain ⟨hi, hfirst⟩ := findSlot_first hhit
    have hnone : noBlock ∉ used := fun hmem ↦ absurd (h.lt _ hmem) (by decide)
    refine ⟨h.storage, ?_, hlt⟩
    show Holds (s.setSlot i _).slots _
    rw [slots_setSlot]
    exact h.holds.drop (of_decide_eq_true hi) (fun j hj ↦ hfirst j (decide_eq_true hj)) hnone

/-- A flush leaves the slots alone. -/
theorem slots_flush (s : BlockCache) :
    s.blockCacheFlush.slots = s.slots ∧ s.blockCacheFlush.storage = s.storage := by
  rw [BlockCache.blockCacheFlush]
  generalize List.finRange blockCacheSize = l
  induction l generalizing s with
  | nil => exact ⟨rfl, rfl⟩
  | cons i l ih =>
    have hslots : (s.flushSlot i).slots = s.slots := by
      rw [BlockCache.flushSlot]
      split
      · dsimp only
        split
        · exact (slots_setSlot _).trans (Function.update_eq_self i s.slots)
        · rfl
      · rfl
    obtain ⟨hrest, hstorage⟩ := ih (s.flushSlot i)
    exact ⟨hrest.trans hslots, hstorage.trans (flushSlot_frame s i).2.2⟩

/-- A flush makes every slot clean. -/
theorem clean_flush (hstorage : s.storage.isSome) (i : Fin blockCacheSize) :
    (s.blockCacheFlush.cache i).dirty = 0 := by
  have hclean : ∀ l : List (Fin blockCacheSize), ∀ s : BlockCache, s.storage.isSome →
      (i ∈ l ∨ (s.cache i).dirty = 0) → ((l.foldl BlockCache.flushSlot s).cache i).dirty = 0 := by
    intro l
    induction l with
    | nil => exact fun s _ h ↦ h.resolve_left List.not_mem_nil
    | cons j l ih =>
      intro s hs h
      obtain ⟨-, hkeep, hsame⟩ := flushSlot_frame s j
      refine ih (s.flushSlot j) (hsame ▸ hs) ?_
      rcases h with h | h
      · rcases List.mem_cons.1 h with rfl | h
        · -- the slot's own turn
          refine Or.inr ?_
          obtain ⟨m, hm⟩ := Option.isSome_iff_exists.1 hs
          rw [BlockCache.flushSlot, hm]
          dsimp only
          split
          · rw [s.setSlot_self]
          case isFalse hzero => exact not_not.1 hzero
        · exact Or.inl h
      · exact Or.inr (by_contra fun hdirty ↦ (hkeep i).2 hdirty h)
  exact hclean _ s hstorage (Or.inl (List.mem_finRange i))

/-- **One call.** -/
theorem UsesSlots.exec (h : UsesSlots s used) (a : CacheCall) :
    UsesSlots (s.exec a).2 (s.usedAfter used a) := by
  cases a with
  | read b buffer =>
    rcases buffer with - | data
    · exact h
    rcases Nat.lt_or_ge b fsMaxBlocks with hb | hb
    · exact h.places hb (h.read hb data)
    · have heq : s.blockRead b (some data) = (⟨-1, some data⟩, s) := if_pos hb
      rw [BlockCache.exec, BlockCache.usedAfter, heq]
      exact h
  | write b buffer =>
    rcases buffer with - | data
    · exact h
    rcases Nat.lt_or_ge b fsMaxBlocks with hb | hb
    · exact h.places hb (h.write hb data)
    · have heq : s.blockWrite b (some data) = (⟨-1, some data⟩, s) := if_pos hb
      rw [BlockCache.exec, BlockCache.usedAfter, heq]
      exact h
  | clear b =>
    rw [BlockCache.exec, BlockCache.usedAfter, BlockCache.blockClear]
    split
    · exact h
    case isFalse hb => exact h.places (Nat.not_le.1 hb) (h.write (Nat.not_le.1 hb) _)
  | free b =>
    rcases Nat.lt_or_ge b fsMaxBlocks with hb | hb
    · have hret : (s.blockFree b).1.ret = 0 := by
        rw [BlockCache.blockFree, if_neg (Nat.not_le.2 hb)]
        split <;> rfl
      rw [BlockCache.usedAfter, if_neg (by rw [hret]; decide)]
      exact h.free hb
    · have heq : s.blockFree b = (⟨-1, none⟩, s) := if_pos hb
      rw [BlockCache.exec, BlockCache.usedAfter, heq]
      exact h
  | flush =>
    obtain ⟨hslots, hstorage⟩ := slots_flush s
    exact ⟨hstorage ▸ h.storage, hslots ▸ h.holds, h.lt⟩

/-- A call that needs a slot succeeds if there is one. -/
theorem Places.ret_eq_iff {t : BlockCache} {ret : ℤ} (h : Places s b ret t) :
    ret = fsBlockSize ↔ s.HasRoom b := by
  rcases h with ⟨rfl, -, hroom⟩ | ⟨rfl, hroom, -⟩
  · exact iff_of_false (by decide) hroom
  · exact iff_of_true rfl hroom

/-- **The slots stay in order.** -/
theorem usesSlots_run {u v : BlockCache × Finset ℕ} {calls : List CacheCall}
    (hrun : Run UsedStep u calls v) (h : UsesSlots u.1 u.2) : UsesSlots v.1 v.2 := by
  refine hrun.invariant (I := fun u ↦ UsesSlots u.1 u.2) ?_ h
  rintro u a v hu ⟨hstep, hused⟩
  rw [hused, show v.1 = _ from hstep]
  exact hu.exec a

end Room

/-- What holds right after a flush: every slot is clean, a read or write of an accepted block
succeeds exactly if there is room for it, and while fewer than 64 blocks are used there is room for
each. -/
structure FlushedRoom (s : BlockCache) (used : Finset ℕ) : Prop where
  clean : ∀ i, (s.cache i).dirty = 0
  read_iff : ∀ b < fsMaxBlocks, ∀ data,
    (s.blockRead b (some data)).1.ret = fsBlockSize ↔ s.HasRoom b
  write_iff : ∀ b < fsMaxBlocks, ∀ data,
    (s.blockWrite b (some data)).1.ret = fsBlockSize ↔ s.HasRoom b
  hasRoom : used.card < blockCacheSize → ∀ b, s.HasRoom b

/-- **When is there room in the block cache?** After `block_cache_init` has its storage, any calls,
on any blocks, and a flush, every slot is clean; a read or write of a block below `FS_MAX_BLOCKS`
succeeds exactly if a slot has the block or a `ref_count` of 0; and that is so for every block while
fewer than 64 different blocks were read, written or cleared and not freed since. -/
theorem room_after_flush {cache : Fin blockCacheSize → BlockCacheEntry} {m : ByteMemory}
    {calls : List CacheCall} {s : BlockCache} {used : Finset ℕ}
    (hrun : Run UsedStep (BlockCache.blockCacheInit cache (some m), ∅) calls (s, used)) :
    FlushedRoom s.blockCacheFlush used := by
  have hs : UsesSlots s used := usesSlots_run hrun (usesSlots_init cache m)
  have ht : UsesSlots s.blockCacheFlush used := hs.exec .flush
  refine ⟨clean_flush hs.storage, fun b hb data ↦ (ht.read hb data).ret_eq_iff,
    fun b hb data ↦ (ht.write hb data).ret_eq_iff, fun hcard b ↦ ?_⟩
  obtain ⟨i, hi⟩ := ht.holds.exists_zero hcard
  exact ⟨i, Or.inr hi⟩

/-- The general theorem after a write of block 0. -/
theorem room_after_flush_write : ∃ s used,
    Run UsedStep (emptyCache, ∅) [.write 0 (some fun _ ↦ 7)] (s, used) ∧
    FlushedRoom s.blockCacheFlush used := by
  have hrun : Run UsedStep (emptyCache, ∅) [.write 0 (some fun _ ↦ 7)] (_, _) :=
    Run.single ⟨rfl, rfl⟩
  exact ⟨_, _, hrun, room_after_flush hrun⟩

/-! ### A cache that is full

Sixty-four blocks are written and the cache is flushed. All slots are clean then, and all are in
use: the next block finds none. -/

/-- The calls that write the first blocks. -/
def firstWrites (k : ℕ) : List CacheCall := (List.range k).map fun b ↦ .write b (some fun _ ↦ 7)

/-- Writing the first blocks takes the slots in order. -/
theorem firstWrites_run {k : ℕ} (hk : k ≤ blockCacheSize) :
    ∃ s, Run StorageStep emptyCache (firstWrites k) s ∧
    ∀ i : Fin blockCacheSize, s.slots i = if (i : ℕ) < k then ((i : ℕ), 1) else (noBlock, 0) := by
  induction k with
  | zero => exact ⟨emptyCache, Run.nil _, fun _ ↦ rfl⟩
  | succ k ih =>
    obtain ⟨s, hrun, hs⟩ := ih (Nat.le_of_succ_le hk)
    have hheld : ∀ i : Fin blockCacheSize, (i : ℕ) < k →
        (s.cache i).blockNum = i ∧ (s.cache i).refCount = 1 := fun i hi ↦
      Prod.mk.inj ((hs i).trans (if_pos hi))
    have hempty : ∀ i : Fin blockCacheSize, k ≤ i →
        (s.cache i).blockNum = noBlock ∧ (s.cache i).refCount = 0 := fun i hi ↦
      Prod.mk.inj ((hs i).trans (if_neg (Nat.not_lt.2 hi)))
    have hmiss : s.findSlot (fun e ↦ e.blockNum = k) = none := by
      refine List.find?_eq_none.2 fun i _ ↦ ?_
      have hlt : k < noBlock := hk.trans (by decide : blockCacheSize ≤ noBlock)
      show ¬decide ((s.cache i).blockNum = k) = true
      rw [decide_eq_true_iff]
      rcases Nat.lt_or_ge i k with hi | hi
      · rw [(hheld i hi).1]
        exact hi.ne
      · rw [(hempty i hi).1]
        exact hlt.ne'
    have hzero : (s.cache ⟨k, hk⟩).refCount = 0 := (hempty ⟨k, hk⟩ le_rfl).2
    have hfree : s.findSlot (fun e ↦ e.refCount = 0) = some ⟨k, hk⟩ := by
      refine SlotTable.find_eq_some_iff.2 ⟨decide_eq_true hzero, fun j hj ↦ ?_⟩
      by_contra! hlt
      exact absurd ((hheld j hlt).2.symm.trans (of_decide_eq_true hj)) one_ne_zero
    have hslots : (s.blockWrite k (some fun _ ↦ 7)).2.slots =
        Function.update s.slots ⟨k, hk⟩ (k, u32 ((s.cache ⟨k, hk⟩).refCount + 1)) := by
      have hb : ¬fsMaxBlocks ≤ k :=
        Nat.not_le.2 (hk.trans (by decide : blockCacheSize ≤ fsMaxBlocks))
      rw [BlockCache.blockWrite]
      dsimp only
      rw [if_neg hb, hmiss, hfree]
      exact slots_setSlot _
    refine ⟨(s.blockWrite k (some fun _ ↦ 7)).2, ?_, fun i ↦ ?_⟩
    · rw [firstWrites, List.range_succ, List.map_append]
      exact hrun.snoc rfl
    · rw [hslots, hzero]
      rcases eq_or_ne i ⟨k, hk⟩ with rfl | hne
      · rw [Function.update_self, if_pos (Nat.lt_succ_self k)]
        rfl
      · have hik : (i : ℕ) ≠ k := fun h ↦ hne (Fin.ext h)
        rw [Function.update_of_ne hne, hs i]
        exact if_congr (by omega) rfl rfl

/-- **A full cache stays full.** Blocks 0 to 63 are written and flushed; then no slot is dirty, and
block 64 can neither be read nor written. -/
theorem full_after_flush :
    ∃ s, Run StorageStep emptyCache (firstWrites blockCacheSize ++ [.flush]) s ∧
    (∀ i, (s.cache i).dirty = 0) ∧ 64 < fsMaxBlocks ∧ (s.blockRead 64 (some fun _ ↦ 7)).1.ret = -1 ∧
    (s.blockWrite 64 (some fun _ ↦ 7)).1.ret = -1 := by
  obtain ⟨s, hrun, hslots⟩ := firstWrites_run le_rfl
  obtain ⟨used, hs⟩ : ∃ used, UsesSlots s used := by
    refine hrun.invariant (I := fun s ↦ ∃ used, UsesSlots s used) ?_ ⟨∅, usesSlots_init _ _⟩
    rintro s a t ⟨used, hs⟩ hstep
    exact ⟨_, show UsesSlots t _ from hstep ▸ hs.exec a⟩
  have ht : UsesSlots s.blockCacheFlush used := hs.exec .flush
  have hroom : ¬s.blockCacheFlush.HasRoom 64 := by
    rintro ⟨i, hi⟩
    have hslot : s.blockCacheFlush.slots i = _ := congrFun (slots_flush s).1 i
    rw [hslots i, if_pos i.isLt] at hslot
    have hnum : (s.blockCacheFlush.cache i).blockNum = i := congrArg Prod.fst hslot
    have hcount : (s.blockCacheFlush.cache i).refCount = 1 := congrArg Prod.snd hslot
    rw [hnum, hcount] at hi
    have hlt : (i : ℕ) < 64 := i.isLt
    omega
  refine ⟨_, hrun.snoc rfl, clean_flush hs.storage, by decide, ?_, ?_⟩
  · exact (ht.read (by decide) _).elim And.left fun h ↦ absurd h.2.1 hroom
  · exact (ht.write (by decide) _).elim And.left fun h ↦ absurd h.2.1 hroom

end LightNight
