import LightNightOS.FileSystem.BlockCache

/-!
# What the block cache does to the contents of the blocks

The slots of the cache are kept as a write-back cache keeps them: a slot in use holds one of the
blocks, no two hold the same, and since there are more slots than blocks a call never fails for want
of one (`SlotsOk`). `k` counts the calls made so far and bounds the `ref_count`s, which is what
keeps them from wrapping to 0.

The data is another matter. A read leaves the buffer as it was given, since the copies go from the
buffer to the slot. So the calls return what a store with a logical and a durable content returns if
and only if every read is given a buffer that already holds what it is to return
(`blockCache_transparent_iff`).
-/

namespace LightNight

open Transition

/-! ### The slots

A block of the storage is in one slot at most, and the count of a slot is at most the number of
calls made. There are fewer blocks than slots, so a slot is free for a block that has none. -/

/-- The slots are in order after `k` calls. -/
structure SlotsOk (k : ℕ) (s : BlockCache) : Prop where
  storage : s.storage.isSome
  /-- A slot that is not in use holds no block. -/
  empty : ∀ i, (s.cache i).refCount = 0 → (s.cache i).blockNum = noBlock ∧ (s.cache i).dirty = 0
  full : ∀ i, (s.cache i).refCount ≠ 0 → ∃ b : Fin storageBlocks, (s.cache i).blockNum = b
  /-- No two slots hold one block. -/
  unique : ∀ i j, (s.cache i).refCount ≠ 0 → (s.cache j).refCount ≠ 0 →
    (s.cache i).blockNum = (s.cache j).blockNum → i = j
  count : ∀ i, (s.cache i).refCount ≤ k

section SlotsOk

variable {k : ℕ} {s : BlockCache}

/-- The number of an empty slot is not the number of a block. -/
theorem noBlock_ne (b : Fin storageBlocks) : noBlock ≠ b := by
  have hb : (b : ℕ) < 16 := b.isLt
  rw [noBlock]
  omega

/-- The slots just after `block_cache_init`. -/
theorem slotsOk_init (cache : Fin blockCacheSize → BlockCacheEntry) (m : ByteMemory) :
    SlotsOk 0 (BlockCache.blockCacheInit cache (some m)) where
  storage := rfl
  empty := fun _ _ ↦ ⟨rfl, rfl⟩
  full := fun _ h ↦ absurd rfl h
  unique := fun _ _ h ↦ absurd rfl h
  count := fun _ ↦ le_rfl

/-- The bound on the number of calls may be raised. -/
theorem SlotsOk.mono {k' : ℕ} (h : SlotsOk k s) (hk : k ≤ k') : SlotsOk k' s :=
  { h with count := fun i ↦ (h.count i).trans hk }

/-- The slots do not depend on the storage. -/
theorem SlotsOk.setStorage (h : SlotsOk k s) (m : ByteMemory) :
    SlotsOk k { s with storage := some m } :=
  ⟨rfl, h.empty, h.full, h.unique, h.count⟩

/-- A slot that holds a block is in use. -/
theorem SlotsOk.inUse (h : SlotsOk k s) {i : Fin blockCacheSize} {b : Fin storageBlocks}
    (hi : (s.cache i).blockNum = b) : (s.cache i).refCount ≠ 0 := fun hzero ↦
  noBlock_ne b ((h.empty i hzero).1.symm.trans hi)

/-- **A slot is assigned**: it is emptied, or gets a block that no other slot holds. -/
theorem SlotsOk.setSlot (h : SlotsOk k s) {i : Fin blockCacheSize} {e : BlockCacheEntry}
    (he : e.refCount = 0 ∧ e.blockNum = noBlock ∧ e.dirty = 0 ∨ e.refCount ≠ 0 ∧
      ∃ b : Fin storageBlocks, e.blockNum = b ∧ ∀ j, j ≠ i → (s.cache j).blockNum ≠ b)
    (hcount : e.refCount ≤ k + 1) : SlotsOk (k + 1) (s.setSlot i e) := by
  have hself : (s.setSlot i e).cache i = e := s.setSlot_self i e
  have hrest : ∀ j, j ≠ i → (s.setSlot i e).cache j = s.cache j := fun j hj ↦
    s.setSlot_of_ne e hj
  refine ⟨h.storage, fun j hj ↦ ?_, fun j hj ↦ ?_, fun j l hj hl hjl ↦ ?_, fun j ↦ ?_⟩
  · by_cases hji : j = i
    · rw [hji, hself] at hj ⊢
      rcases he with ⟨-, hempty⟩ | ⟨huse, -⟩
      exacts [hempty, absurd hj huse]
    · rw [hrest j hji] at hj ⊢
      exact h.empty j hj
  · by_cases hji : j = i
    · rw [hji, hself] at hj ⊢
      rcases he with ⟨hzero, -⟩ | ⟨-, b, hb, -⟩
      exacts [absurd hzero hj, ⟨b, hb⟩]
    · rw [hrest j hji] at hj ⊢
      exact h.full j hj
  · have hnew : ∀ l, l ≠ i → e.refCount ≠ 0 → (s.cache l).blockNum ≠ e.blockNum := by
      intro l hl huse heq
      rcases he with ⟨hzero, -⟩ | ⟨-, b, hb, hother⟩
      · exact huse hzero
      · exact hother l hl (heq.trans hb)
    by_cases hji : j = i
    · by_cases hli : l = i
      · rw [hji, hli]
      · rw [hji, hself] at hj hjl
        rw [hrest l hli] at hjl
        exact absurd hjl.symm (hnew l hli hj)
    · by_cases hli : l = i
      · rw [hli, hself] at hl hjl
        rw [hrest j hji] at hjl
        exact absurd hjl (hnew j hji hl)
      · rw [hrest j hji] at hj hjl
        rw [hrest l hli] at hl hjl
        exact h.unique j l hj hl hjl
  · by_cases hji : j = i
    · rw [hji, hself]
      exact hcount
    · rw [hrest j hji]
      exact (h.count j).trans (Nat.le_succ k)

/-- A slot that keeps its block and its `ref_count`. -/
theorem SlotsOk.flushSlot (h : SlotsOk k s) (i : Fin blockCacheSize) :
    SlotsOk k (s.flushSlot i) := by
  have hsame : (s.flushSlot i).storage = s.storage ∧
      ∀ j, ((s.flushSlot i).cache j).blockNum = (s.cache j).blockNum ∧
        ((s.flushSlot i).cache j).refCount = (s.cache j).refCount ∧
        (((s.flushSlot i).cache j).dirty = (s.cache j).dirty ∨
          ((s.flushSlot i).cache j).dirty = 0) := by
    rw [BlockCache.flushSlot]
    split
    · dsimp only
      split
      · refine ⟨rfl, fun j ↦ ?_⟩
        by_cases hj : j = i
        · rw [hj, s.setSlot_self]
          exact ⟨rfl, rfl, Or.inr rfl⟩
        · rw [s.setSlot_of_ne _ hj]
          exact ⟨rfl, rfl, Or.inl rfl⟩
      · exact ⟨rfl, fun _ ↦ ⟨rfl, rfl, Or.inl rfl⟩⟩
    · exact ⟨rfl, fun _ ↦ ⟨rfl, rfl, Or.inl rfl⟩⟩
  obtain ⟨hstorage, hslots⟩ := hsame
  refine ⟨hstorage ▸ h.storage, fun j hj ↦ ?_, fun j hj ↦ ?_, fun j l hj hl hjl ↦ ?_, fun j ↦ ?_⟩
  · obtain ⟨hnum, href, hdirty⟩ := hslots j
    obtain ⟨hempty, hclean⟩ := h.empty j (href ▸ hj)
    rw [hnum]
    exact ⟨hempty, hdirty.elim (fun heq ↦ heq.trans hclean) id⟩
  · rw [(hslots j).2.1] at hj
    rw [(hslots j).1]
    exact h.full j hj
  · rw [(hslots j).2.1] at hj
    rw [(hslots l).2.1] at hl
    rw [(hslots j).1, (hslots l).1] at hjl
    exact h.unique j l hj hl hjl
  · rw [(hslots j).2.1]
    exact h.count j

/-- A flush keeps the slots, and clears the dirty marks. -/
theorem SlotsOk.flush (h : SlotsOk k s) : SlotsOk k s.blockCacheFlush := by
  rw [BlockCache.blockCacheFlush]
  generalize List.finRange blockCacheSize = l
  induction l generalizing s with
  | nil => exact h
  | cons i l ih => exact ih (h.flushSlot i)

/-! ### Finding slots -/

/-- A slot that is found is one that was looked for. -/
theorem findSlot_some {p : BlockCacheEntry → Bool} {i : Fin blockCacheSize}
    (hfind : s.findSlot p = some i) : p (s.cache i) = true :=
  List.find?_some (p := fun i ↦ p (s.cache i)) hfind

theorem findSlot_none {p : BlockCacheEntry → Bool} (hfind : s.findSlot p = none)
    (i : Fin blockCacheSize) : p (s.cache i) = false := by
  simpa using List.find?_eq_none.1 hfind i (List.mem_finRange i)

/-- There are more slots than blocks: some slot is empty. -/
theorem SlotsOk.exists_empty (h : SlotsOk k s) :
    ∃ i, s.findSlot (fun e ↦ e.refCount = 0) = some i := by
  rcases hfind : s.findSlot fun e ↦ e.refCount = 0 with - | i
  · have huse : ∀ i, (s.cache i).refCount ≠ 0 := fun i ↦ by simpa using findSlot_none hfind i
    obtain ⟨f, hf⟩ := Classical.axiomOfChoice fun i ↦ h.full i (huse i)
    have hinj : Function.Injective f := fun i j hij ↦
      h.unique i j (huse i) (huse j) (by rw [hf i, hf j, hij])
    have hcard := Fintype.card_le_of_injective f hinj
    rw [Fintype.card_fin, Fintype.card_fin] at hcard
    exact absurd hcard (by decide)
  · exact ⟨i, rfl⟩

/-! ### The calls

Each call keeps the slots, and does to the contents what a store would do, except that a read does
not deliver: the buffer comes back as it was given. -/

/-- The blocks of the storage pass the check of the block number. -/
theorem not_fsMaxBlocks_le (b : Fin storageBlocks) : ¬fsMaxBlocks ≤ (b : ℕ) := by
  have hb : (b : ℕ) < 16 := b.isLt
  rw [fsMaxBlocks]
  omega

/-- A `ref_count` does not wrap within the bound on the calls. -/
theorem SlotsOk.refCount_succ (h : SlotsOk k s) (hk : k + 1 < 2 ^ 32) (i : Fin blockCacheSize) :
    u32 ((s.cache i).refCount + 1) ≠ 0 ∧ u32 ((s.cache i).refCount + 1) ≤ k + 1 := by
  have hcount := h.count i
  rw [u32_of_lt (by omega)]
  omega

/-- **`block_read` succeeds, and leaves the buffer as it was.** -/
theorem SlotsOk.read (h : SlotsOk k s) (hk : k + 1 < 2 ^ 32) (b : Fin storageBlocks)
    (data : BlockData) : ∃ t,
      s.blockRead b (some data) = (⟨fsBlockSize, some data⟩, t) ∧ SlotsOk (k + 1) t := by
  rw [BlockCache.blockRead]
  simp only [if_neg (not_fsMaxBlocks_le b)]
  rcases hfind : s.findSlot fun e ↦ e.blockNum = b ∧ 0 < e.refCount with - | i
  · -- not cached: an empty slot is taken
    have hnone : ∀ j, (s.cache j).blockNum ≠ b := fun j hj ↦ by
      have hno := findSlot_none hfind j
      have hpos := Nat.pos_of_ne_zero (h.inUse hj)
      simp [hj, hpos] at hno
    obtain ⟨i, hi⟩ := h.exists_empty
    obtain ⟨m, hm⟩ := Option.isSome_iff_exists.1 h.storage
    simp only [hi, hm]
    exact ⟨_, rfl, (h.setStorage _).setSlot
      (Or.inr ⟨Nat.one_ne_zero, b, rfl, fun j _ ↦ hnone j⟩) (Nat.le_add_left 1 k)⟩
  · -- cached
    obtain ⟨hnum, hpos⟩ : (s.cache i).blockNum = b ∧ 0 < (s.cache i).refCount := by
      simpa using findSlot_some hfind
    obtain ⟨href, hcount⟩ := h.refCount_succ hk i
    exact ⟨_, rfl, h.setSlot (Or.inr ⟨href, b, hnum, fun j hj hjb ↦
      hj (h.unique j i (h.inUse hjb) hpos.ne' (hjb.trans hnum.symm))⟩) hcount⟩

/-- `block_write` succeeds. -/
theorem SlotsOk.write (h : SlotsOk k s) (hk : k + 1 < 2 ^ 32) (b : Fin storageBlocks)
    (data : BlockData) : ∃ buffer t,
      s.blockWrite b (some data) = (⟨fsBlockSize, buffer⟩, t) ∧ SlotsOk (k + 1) t := by
  have hslot : ∃ i, ((s.findSlot fun e ↦ e.blockNum = b).or
        (s.findSlot fun e ↦ e.refCount = 0)) = some i ∧
      ∀ j, j ≠ i → (s.cache j).blockNum ≠ b := by
    rcases hfind : s.findSlot fun e ↦ e.blockNum = b with - | i
    · obtain ⟨i, hi⟩ := h.exists_empty
      exact ⟨i, by rw [Option.none_or, hi], fun j _ ↦ by simpa using findSlot_none hfind j⟩
    · have hnum : (s.cache i).blockNum = b := by simpa using findSlot_some hfind
      refine ⟨i, rfl, fun j hj hjb ↦ hj ?_⟩
      exact h.unique j i (h.inUse hjb) (h.inUse hnum) (hjb.trans hnum.symm)
  obtain ⟨i, hi, hother⟩ := hslot
  obtain ⟨href, hcount⟩ := h.refCount_succ hk i
  rw [BlockCache.blockWrite]
  simp only [if_neg (not_fsMaxBlocks_le b), hi]
  exact ⟨_, _, rfl, h.setSlot (Or.inr ⟨href, b, rfl, hother⟩) hcount⟩

/-- `block_free` -/
theorem SlotsOk.free (h : SlotsOk k s) (b : Fin storageBlocks) :
    ∃ t, s.blockFree b = (⟨0, none⟩, t) ∧ SlotsOk (k + 1) t := by
  rw [BlockCache.blockFree, if_neg (not_fsMaxBlocks_le b)]
  split
  · exact ⟨_, rfl, h.setSlot (Or.inl ⟨rfl, rfl, rfl⟩) (Nat.zero_le _)⟩
  · exact ⟨_, rfl, h.mono (Nat.le_succ k)⟩

/-- **The condition on a call**: a read is given a buffer that holds what it is to return. -/
def BufferHolds (c : Contents) : BlockCall → Prop
  | .read b (some data) => data = c.logical b
  | _ => True

/-- The condition on the calls of a run. -/
def BuffersHold : Contents → List BlockCall → Prop
  | _, [] => True
  | c, a :: calls => BufferHolds c a ∧ BuffersHold (c.next a) calls

/-- The contents after some calls. -/
def Contents.after (c : Contents) (calls : List BlockCall) : Contents := calls.foldl Contents.next c

/-- A block that was written has what was written to it. -/
theorem next_write (c : Contents) (b : Fin storageBlocks) (data : BlockData) :
    (c.next (.write b (some data))).logical b = data :=
  Function.update_self _ _ _

/-- The last call is made on what the earlier ones have left. -/
theorem after_snoc (c : Contents) (calls : List BlockCall) (a : BlockCall) :
    c.after (calls ++ [a]) = (c.after calls).next a :=
  List.foldl_append

/-- The condition on a sequence of calls, call by call. -/
theorem buffersHold_snoc {c : Contents} {calls : List BlockCall} {a : BlockCall} :
    BuffersHold c (calls ++ [a]) ↔ BuffersHold c calls ∧ BufferHolds (c.after calls) a := by
  induction calls generalizing c with
  | nil => exact and_comm
  | cons b calls ih =>
    rw [List.cons_append, BuffersHold, BuffersHold, ih, and_assoc]
    rfl

/-- **One call**: the slots stay in order, and the call does what the callers may rely on exactly
under the condition. -/
theorem SlotsOk.call {t : BlockCache} {a : BlockCall} {r : BlockResult} (h : SlotsOk k s)
    (hk : k + 1 < 2 ^ 32) (hstep : CacheStep s (a, r) t) :
    SlotsOk (k + 1) t ∧ ∀ c c', ContentStep c (a, r) c' ↔ BufferHolds c a ∧ c' = c.next a := by
  have hresult : ∀ {r' u}, s.call a = (r', u) → r' = r ∧ u = t := fun heq ↦
    Prod.mk.inj (heq.symm.trans hstep)
  cases a with
  | read b buffer =>
    cases buffer with
    | none =>
      obtain ⟨rfl, rfl⟩ := hresult rfl
      refine ⟨h.mono (Nat.le_succ k), fun c c' ↦ ⟨fun hc ↦ ?_, ?_⟩⟩
      · cases hc
        exact ⟨trivial, rfl⟩
      · rintro ⟨-, rfl⟩
        exact .readNull _ b
    | some data =>
      obtain ⟨u, hread, hu⟩ := h.read hk b data
      obtain ⟨rfl, rfl⟩ := hresult hread
      refine ⟨hu, fun c c' ↦ ⟨fun hc ↦ ?_, ?_⟩⟩
      · cases hc
        exact ⟨rfl, rfl⟩
      · rintro ⟨hdata, rfl⟩
        rw [show data = _ from hdata]
        exact .read _ b _
  | write b buffer =>
    cases buffer with
    | none =>
      obtain ⟨rfl, rfl⟩ := hresult rfl
      refine ⟨h.mono (Nat.le_succ k), fun c c' ↦ ⟨fun hc ↦ ?_, ?_⟩⟩
      · cases hc
        exact ⟨trivial, rfl⟩
      · rintro ⟨-, rfl⟩
        exact .writeNull _ b
    | some data =>
      obtain ⟨buffer, u, hwrite, hu⟩ := h.write hk b data
      obtain ⟨rfl, rfl⟩ := hresult hwrite
      refine ⟨hu, fun c c' ↦ ⟨fun hc ↦ ?_, ?_⟩⟩
      · cases hc
        exact ⟨trivial, rfl⟩
      · rintro ⟨-, rfl⟩
        exact .write c b data buffer
  | clear b =>
    obtain ⟨buffer, u, hwrite, hu⟩ := h.write hk b fun _ ↦ 0
    have hclear : s.blockClear b = (⟨fsBlockSize, none⟩, u) := by
      rw [BlockCache.blockClear, if_neg (not_fsMaxBlocks_le b), hwrite]
    obtain ⟨rfl, rfl⟩ := hresult hclear
    refine ⟨hu, fun c c' ↦ ⟨fun hc ↦ ?_, ?_⟩⟩
    · cases hc
      exact ⟨trivial, rfl⟩
    · rintro ⟨-, rfl⟩
      exact .clear c b
  | free b =>
    obtain ⟨u, hfree, hu⟩ := h.free b
    obtain ⟨rfl, rfl⟩ := hresult hfree
    refine ⟨hu, fun c c' ↦ ⟨fun hc ↦ ?_, ?_⟩⟩
    · cases hc
      exact ⟨trivial, rfl⟩
    · rintro ⟨-, rfl⟩
      exact .free c b
  | flush =>
    obtain ⟨rfl, rfl⟩ := hresult rfl
    refine ⟨h.flush.mono (Nat.le_succ k), fun c c' ↦ ⟨fun hc ↦ ?_, ?_⟩⟩
    · cases hc
      exact ⟨trivial, rfl⟩
    · rintro ⟨-, rfl⟩
      exact .flush c

end SlotsOk

/-! ### Every run

The two runs go together call by call, and a call returns what it returns on the contents unless it
is a read into a buffer that holds something else. -/

/-- **Every run**: its results are those of a store exactly under the condition. -/
theorem slotsOk_run {s t : BlockCache} {calls : List (BlockCall × BlockResult)}
    (hrun : Run CacheStep s calls t) (hs : SlotsOk 0 s) (hcalls : calls.length < 2 ^ 32) :
    SlotsOk calls.length t ∧ ∀ c₀ c, Run ContentStep c₀ calls c ↔
      BuffersHold c₀ (calls.map Prod.fst) ∧ c = c₀.after (calls.map Prod.fst) := by
  induction hrun with
  | nil =>
    exact ⟨hs, fun c₀ c ↦ Run.nil_iff.trans ⟨fun heq ↦ ⟨trivial, heq⟩, fun h ↦ h.2⟩⟩
  | @snoc t u calls a _ hstep ih =>
    rw [List.length_append, List.length_singleton] at hcalls ⊢
    obtain ⟨hslots, hcontents⟩ := ih (by omega)
    obtain ⟨hslots', hcall⟩ := hslots.call hcalls hstep
    refine ⟨hslots', fun c₀ c ↦ ?_⟩
    rw [Run.snoc_iff, List.map_append, List.map_singleton, buffersHold_snoc, after_snoc]
    constructor
    · rintro ⟨c', hfront, hc⟩
      obtain ⟨hhold, rfl⟩ := (hcontents c₀ c').1 hfront
      obtain ⟨hlast, rfl⟩ := (hcall _ _).1 hc
      exact ⟨⟨hhold, hlast⟩, rfl⟩
    · rintro ⟨⟨hhold, hlast⟩, rfl⟩
      exact ⟨_, (hcontents c₀ _).2 ⟨hhold, rfl⟩, (hcall _ _).2 ⟨hlast, rfl⟩⟩

/-- **When is the block cache a transparent write-back cache?** In a run of fewer than `2 ^ 32`
calls after `block_cache_init` has allocated the storage, the calls return what they return on a
logical and a durable content, and no two slots in use hold one block, if and only if every
`block_read` is given a buffer that already holds the logical content of its block. -/
theorem blockCache_transparent_iff (cache : Fin blockCacheSize → BlockCacheEntry) (m : ByteMemory)
    {calls : List (BlockCall × BlockResult)} {s : BlockCache}
    (hrun : Run CacheStep (BlockCache.blockCacheInit cache (some m)) calls s)
    (hcalls : calls.length < 2 ^ 32) (c₀ : Contents) :
    ((∃ c, Run ContentStep c₀ calls c) ∧
      ∀ i j, (s.cache i).refCount ≠ 0 → (s.cache j).refCount ≠ 0 →
        (s.cache i).blockNum = (s.cache j).blockNum → i = j) ↔
      BuffersHold c₀ (calls.map Prod.fst) := by
  obtain ⟨hslots, hcontents⟩ := slotsOk_run hrun (slotsOk_init cache m) hcalls
  constructor
  · rintro ⟨⟨c, hc⟩, -⟩
    exact ((hcontents c₀ c).1 hc).1
  · exact fun hhold ↦ ⟨⟨_, (hcontents c₀ _).2 ⟨hhold, rfl⟩⟩, hslots.unique⟩

/-- Two calls: a write, and a read of the block written into a given buffer. -/
theorem exists_write_read (data : BlockData) : ∃ calls s,
    Run CacheStep (BlockCache.blockCacheInit (fun _ ↦ ⟨0, fun _ ↦ 0, 0, 0⟩) (some fun _ ↦ 0)) calls
      s ∧ calls.map Prod.fst = [.write 3 (some fun _ ↦ 7), .read 3 (some data)] := by
  have hinit := slotsOk_init (fun _ ↦ ⟨0, fun _ ↦ 0, 0, 0⟩) fun _ ↦ 0
  obtain ⟨buffer, s₁, hwrite, hslots⟩ := hinit.write (by decide) 3 fun _ ↦ 7
  obtain ⟨s₂, hread, -⟩ := hslots.read (by decide) 3 data
  have hstep₁ : CacheStep (BlockCache.blockCacheInit (fun _ ↦ ⟨0, fun _ ↦ 0, 0, 0⟩)
      (some fun _ ↦ 0)) (.write 3 (some fun _ ↦ 7), ⟨fsBlockSize, buffer⟩) s₁ := hwrite
  have hstep₂ : CacheStep s₁ (.read 3 (some data), ⟨fsBlockSize, some data⟩) s₂ := hread
  exact ⟨_, s₂, (Run.single hstep₁).snoc hstep₂, rfl⟩

/-- The general theorem on a read into a buffer that holds what was written. -/
theorem blockCache_transparent_write_read : ∃ calls s,
    Run CacheStep (BlockCache.blockCacheInit (fun _ ↦ ⟨0, fun _ ↦ 0, 0, 0⟩) (some fun _ ↦ 0)) calls
      s ∧ calls.map Prod.fst = [.write 3 (some fun _ ↦ 7), .read 3 (some fun _ ↦ 7)] ∧
    (∃ c, Run ContentStep ⟨fun _ _ ↦ 0, fun _ _ ↦ 0⟩ calls c) ∧
      ∀ i j, (s.cache i).refCount ≠ 0 → (s.cache j).refCount ≠ 0 →
        (s.cache i).blockNum = (s.cache j).blockNum → i = j := by
  obtain ⟨calls, s, hrun, hcalls⟩ := exists_write_read fun _ ↦ 7
  have hlength : calls.length = 2 := by
    rw [← List.length_map (f := Prod.fst), hcalls]
    rfl
  refine ⟨calls, s, hrun, hcalls, (blockCache_transparent_iff _ _ hrun ?_ _).2 ?_⟩
  · rw [hlength]
    decide
  · rw [hcalls]
    exact ⟨trivial, (next_write _ _ _).symm, trivial⟩

/-- **A write is lost**: a block read back after it was written is not what was written, whatever
the contents were before. -/
theorem write_read_stale : ∃ calls s,
    Run CacheStep (BlockCache.blockCacheInit (fun _ ↦ ⟨0, fun _ ↦ 0, 0, 0⟩) (some fun _ ↦ 0)) calls
      s ∧ calls.map Prod.fst = [.write 3 (some fun _ ↦ 7), .read 3 (some fun _ ↦ 0)] ∧
    ∀ c₀ c, ¬Run ContentStep c₀ calls c := by
  obtain ⟨calls, s, hrun, hcalls⟩ := exists_write_read fun _ ↦ 0
  have hlength : calls.length = 2 := by
    rw [← List.length_map (f := Prod.fst), hcalls]
    rfl
  have hshort : calls.length < 2 ^ 32 := by
    rw [hlength]
    decide
  refine ⟨calls, s, hrun, hcalls, fun c₀ c hc ↦ ?_⟩
  have hhold := (((slotsOk_run hrun (slotsOk_init _ _) hshort).2 c₀ c).1 hc).1
  rw [hcalls] at hhold
  have hread : (fun _ ↦ 0) = (fun _ ↦ 7 : BlockData) := hhold.2.1.trans (next_write c₀ 3 _)
  exact absurd (congrFun hread ⟨0, by decide⟩) (by decide)

end LightNight
