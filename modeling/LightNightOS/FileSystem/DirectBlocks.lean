import LightNightOS.FileSystem.InodeContents

/-!
# The books on direct blocks

`inode_add_block` and `inode_remove_block` keep the blocks of an inode in `direct_blocks`, where
`0xFFFFFFFF` marks a free entry, and count them in `block_count`. A caller may keep books of its
own, from what the calls return: the blocks that were added and not removed. The two agree, call by
call, if they agree when the inode is loaded and the marker itself is never added or removed while
an entry is free (`books_kept_iff`). But a miss of the cache does not empty the inode it loads: an
inode of zeros holds block 0 twelve times, with a `block_count` of 0 (`zeros_full`).

* `DiskInode.Books.add`, `DiskInode.Books.remove` — adding and removing a block that is not the
  marker;
* `DiskInode.Books.exec_iff` — one call, both ways;
* `Pinned.op` — the slot of the inode is found again;
* `books_kept_iff` — any sequence of calls.
-/

namespace LightNight

open Transition SlotTable

/-! ### The blocks of an inode -/

/-- The entries of `direct_blocks` that are not free. -/
def DiskInode.entries (inode : DiskInode) (i : Fin directBlockCount) : Option ℕ :=
  if inode.directBlocks i = noBlock then none else some (inode.directBlocks i)

/-- The blocks that the inode holds. -/
def DiskInode.blocks (inode : DiskInode) : Multiset ℕ := (contents inode.entries : Multiset ℕ)

/-- A call on one inode. -/
inductive BlockOp
  | add (blockNum : ℕ)
  | remove (blockNum : ℕ)

namespace BlockOp

/-- The block. -/
def blockNum : BlockOp → ℕ
  | add b | remove b => b

/-- The call of the inode layer. -/
def call (inodeId : ℕ) : BlockOp → InodeCall
  | add b => .addBlock inodeId b
  | remove b => .removeBlock inodeId b

/-- What the call does to the inode. -/
def exec : BlockOp → DiskInode → ℤ × DiskInode
  | add b => DiskInode.addBlock b
  | remove b => DiskInode.removeBlock b

/-- The books after a call that returned `ret`. -/
def enter (ret : ℤ) (held : Multiset ℕ) : BlockOp → Multiset ℕ
  | add b => if ret = 0 then b ::ₘ held else held
  | remove b => if ret = 0 then held.erase b else held

/-- What a call is to return, by the books: an add fails only when 12 blocks are held, and a remove
fails exactly when the block is not held. -/
def Returns (ret : ℤ) (held : Multiset ℕ) : BlockOp → Prop
  | add _ => ret = 0 ∨ ret = -1 ∧ held.card = directBlockCount
  | remove b => ret = 0 ∧ b ∈ held ∨ ret = -1 ∧ b ∉ held

end BlockOp

/-- The books agree with the inode. -/
structure DiskInode.Books (inode : DiskInode) (held : Multiset ℕ) : Prop where
  count : inode.blockCount = inode.blocks.card
  blocks : inode.blocks = held

section Blocks

variable {inode : DiskInode} {held : Multiset ℕ} {old new b : ℕ}

/-- The blocks of an inode are its entries but for the marker. -/
theorem DiskInode.mem_blocks : b ∈ inode.blocks ↔ b ≠ noBlock ∧ ∃ i, inode.directBlocks i = b := by
  rw [blocks, Multiset.mem_coe, mem_contents]
  constructor
  · rintro ⟨i, hi⟩
    rw [entries] at hi
    split at hi
    case isTrue => exact absurd hi nofun
    case isFalse hne =>
      obtain rfl := Option.some.inj hi
      exact ⟨hne, i, rfl⟩
  · rintro ⟨hne, i, rfl⟩
    exact ⟨i, if_neg hne⟩

theorem DiskInode.card_blocks_le (inode : DiskInode) : inode.blocks.card ≤ directBlockCount :=
  length_contents_le inode.entries

/-- No entry is free exactly if 12 blocks are held. -/
theorem DiskInode.full_iff :
    inode.blocks.card = directBlockCount ↔ ∀ i, inode.directBlocks i ≠ noBlock := by
  rw [blocks, Multiset.coe_card, length_contents_eq_iff]
  refine forall_congr' fun i ↦ ?_
  rw [entries]
  split
  case isTrue h => exact iff_of_false nofun (not_not.2 h)
  case isFalse h => exact iff_of_true rfl h

/-- **Replacing an entry** replaces a block, or fails where there is no such entry. -/
theorem DiskInode.replaceBlock_cases (inode : DiskInode) (old new : ℕ) (count : ℕ → ℕ) :
    (∃ i, inode.directBlocks i = old ∧ inode.replaceBlock old new count = (0, { inode with
      directBlocks := Function.update inode.directBlocks i new
      blockCount := count inode.blockCount })) ∨
    (∀ i, inode.directBlocks i ≠ old) ∧ inode.replaceBlock old new count = (-1, inode) := by
  rw [replaceBlock]
  rcases hfind : (List.finRange directBlockCount).find? fun i ↦ inode.directBlocks i = old
    with - | i
  · refine Or.inr ⟨fun i ↦ ?_, rfl⟩
    simpa using List.find?_eq_none.1 hfind i (List.mem_finRange i)
  · exact Or.inl ⟨i, of_decide_eq_true (find_eq_some_iff.1 hfind).1, rfl⟩

/-- The blocks, with those of one entry first. -/
theorem DiskInode.blocks_eq (inode : DiskInode) (i : Fin directBlockCount) :
    inode.blocks = ((inode.entries i).toList : Multiset ℕ) + others inode.entries i :=
  Multiset.coe_eq_coe.2 (contents_perm inode.entries i)

/-- An entry is assigned: the blocks of the others stay. -/
theorem DiskInode.blocks_update (inode : DiskInode) (i : Fin directBlockCount) (new count : ℕ) :
    ({ inode with directBlocks := Function.update inode.directBlocks i new, blockCount := count } :
      DiskInode).blocks =
      ((if new = noBlock then none else some new).toList : Multiset ℕ) +
        others inode.entries i := by
  have hentries : ({ inode with
      directBlocks := Function.update inode.directBlocks i new, blockCount := count } :
        DiskInode).entries =
      Function.update inode.entries i (if new = noBlock then none else some new) := by
    funext j
    show (if Function.update inode.directBlocks i new j = noBlock then none
      else some (Function.update inode.directBlocks i new j)) = _
    exact Function.apply_update (fun _ b ↦ if b = noBlock then none else some b) ..
  rw [blocks, hentries]
  exact Multiset.coe_eq_coe.2 (contents_update inode.entries i _)

/-! ### One call

For each call and each state, whether the books still agree after it. The marker is the one value
that is both a block and the absence of one. -/

/-- **Adding a block** other than the marker. -/
theorem DiskInode.Books.add (h : inode.Books held) (hb : b ≠ noBlock) :
    (BlockOp.add b).Returns (inode.addBlock b).1 held ∧
      (inode.addBlock b).2.Books ((BlockOp.add b).enter (inode.addBlock b).1 held) := by
  have hle := inode.card_blocks_le
  rw [addBlock]
  rcases inode.replaceBlock_cases noBlock b fun count ↦
    u32 (count + 1) with ⟨i, hi, heq⟩ | ⟨hall, heq⟩
  · rw [heq]
    have hfree : inode.blocks = others inode.entries i := by
      rw [inode.blocks_eq i, entries, if_pos hi]
      exact Multiset.zero_add _
    have hcard : inode.blocks.card ≠ directBlockCount := fun hfull ↦ full_iff.1 hfull i hi
    refine ⟨Or.inl rfl, ?_⟩
    have hblocks := inode.blocks_update i b (u32 (inode.blockCount + 1))
    rw [if_neg hb, ← hfree, h.blocks] at hblocks
    refine ⟨?_, hblocks⟩
    rw [hblocks]
    show u32 (inode.blockCount + 1) = (b ::ₘ held).card
    rw [Multiset.card_cons, ← h.blocks, h.count, u32_of_lt]
    rw [directBlockCount] at hle
    omega
  · rw [heq]
    have hfull : held.card = directBlockCount := by
      rw [← h.blocks]
      exact full_iff.2 hall
    exact ⟨Or.inr ⟨rfl, hfull⟩, h⟩

/-- **Removing a block** other than the marker. -/
theorem DiskInode.Books.remove (h : inode.Books held) (hb : b ≠ noBlock) :
    (BlockOp.remove b).Returns (inode.removeBlock b).1 held ∧
      (inode.removeBlock b).2.Books ((BlockOp.remove b).enter (inode.removeBlock b).1 held) := by
  have hle := inode.card_blocks_le
  rw [removeBlock]
  rcases inode.replaceBlock_cases b noBlock fun count ↦ u32 (count + (2 ^ 32 - 1)) with
    ⟨i, hi, heq⟩ | ⟨hall, heq⟩
  · rw [heq]
    have hheld : held = b ::ₘ others inode.entries i := by
      rw [← h.blocks, inode.blocks_eq i, entries, hi, if_neg hb]
      rfl
    refine ⟨Or.inl ⟨rfl, hheld ▸ Multiset.mem_cons_self b _⟩, ?_⟩
    have hblocks := inode.blocks_update i noBlock (u32 (inode.blockCount + (2 ^ 32 - 1)))
    have hrest : (BlockOp.remove b).enter 0 held = others inode.entries i := by
      show held.erase b = _
      rw [hheld, Multiset.erase_cons_head]
    rw [hrest]
    rw [if_pos rfl, show ((none : Option ℕ).toList : Multiset ℕ) = 0 from rfl,
      Multiset.zero_add] at hblocks
    refine ⟨?_, hblocks⟩
    rw [hblocks]
    show u32 (inode.blockCount + (2 ^ 32 - 1)) = _
    rw [h.count, h.blocks, hheld, Multiset.card_cons, u32]
    have htwelve : directBlockCount = 12 := rfl
    rw [h.blocks, hheld, Multiset.card_cons] at hle
    omega
  · rw [heq]
    have hmem : b ∉ held := by
      rw [← h.blocks, mem_blocks]
      rintro ⟨-, i, hi⟩
      exact hall i hi
    exact ⟨Or.inr ⟨rfl, hmem⟩, h⟩

/-- While 12 blocks are held, a call with the marker fails, as it is to. -/
theorem DiskInode.Books.marker_full (h : inode.Books held) {op : BlockOp}
    (hop : op.blockNum = noBlock) (hfull : inode.blocks.card = directBlockCount) :
    op.Returns (op.exec inode).1 held ∧
      (op.exec inode).2.Books (op.enter (op.exec inode).1 held) := by
  have hnone : ∀ new count, inode.replaceBlock noBlock new count = (-1, inode) := by
    intro new count
    rcases inode.replaceBlock_cases noBlock new count with ⟨i, hi, -⟩ | ⟨-, heq⟩
    · exact absurd hi (full_iff.1 hfull i)
    · exact heq
  cases op with
  | add b =>
    rw [BlockOp.exec, addBlock, hnone]
    exact ⟨Or.inr ⟨rfl, h.blocks ▸ hfull⟩, h⟩
  | remove b =>
    obtain rfl : b = noBlock := hop
    rw [BlockOp.exec, removeBlock, hnone]
    refine ⟨Or.inr ⟨rfl, fun hmem ↦ ?_⟩, h⟩
    rw [← h.blocks, mem_blocks] at hmem
    exact hmem.1 rfl

/-- While an entry is free, a call with the marker succeeds: a block is added that is not held, or
one is removed that is not. -/
theorem DiskInode.Books.marker_free (h : inode.Books held) {op : BlockOp}
    (hop : op.blockNum = noBlock) (hfree : inode.blocks.card ≠ directBlockCount) :
    ¬(op.Returns (op.exec inode).1 held ∧
      (op.exec inode).2.Books (op.enter (op.exec inode).1 held)) := by
  obtain ⟨i, hi⟩ : ∃ i, inode.directBlocks i = noBlock := by
    by_contra! hall
    exact hfree (full_iff.2 hall)
  have hret : ∀ new count, (inode.replaceBlock noBlock new count).1 = 0 := by
    intro new count
    rcases inode.replaceBlock_cases noBlock new count with ⟨j, -, heq⟩ | ⟨hall, -⟩
    · rw [heq]
    · exact absurd hi (hall i)
  rintro ⟨hreturns, hbooks⟩
  cases op with
  | add b =>
    obtain rfl : b = noBlock := hop
    have hmem : noBlock ∈ ((BlockOp.add noBlock).exec inode).2.blocks := by
      rw [hbooks.blocks, BlockOp.exec, addBlock, hret]
      exact Multiset.mem_cons_self noBlock held
    exact (mem_blocks.1 hmem).1 rfl
  | remove b =>
    obtain rfl : b = noBlock := hop
    rw [BlockOp.exec, removeBlock, hret] at hreturns
    rcases hreturns with ⟨-, hmem⟩ | ⟨hfail, -⟩
    · rw [← h.blocks, mem_blocks] at hmem
      exact hmem.1 rfl
    · exact absurd hfail (by decide)

/-- **One call** leaves the books right exactly if it is not about the marker, or no entry is
free. -/
theorem DiskInode.Books.exec_iff (h : inode.Books held) (op : BlockOp) :
    (op.Returns (op.exec inode).1 held ∧
      (op.exec inode).2.Books (op.enter (op.exec inode).1 held)) ↔
      (op.blockNum = noBlock → inode.blocks.card = directBlockCount) := by
  rcases eq_or_ne op.blockNum noBlock with hop | hop
  · rw [forall_prop_of_true hop]
    exact ⟨fun hright ↦ by_contra fun hfree ↦ h.marker_free hop hfree hright, h.marker_full hop⟩
  · refine iff_of_true ?_ fun hmarker ↦ absurd hmarker hop
    cases op with
    | add b => exact h.add hop
    | remove b => exact h.remove hop

/-- The books are empty at first, so they are right if the inode is. -/
theorem DiskInode.books_zero_iff :
    inode.Books 0 ↔ (∀ i, inode.directBlocks i = noBlock) ∧ inode.blockCount = 0 := by
  have hempty : inode.blocks = 0 ↔ ∀ i, inode.directBlocks i = noBlock := by
    rw [Multiset.eq_zero_iff_forall_notMem]
    constructor
    · intro hnone i
      by_contra hi
      exact hnone _ (mem_blocks.2 ⟨hi, i, rfl⟩)
    · rintro hall b hb
      obtain ⟨hne, i, hi⟩ := mem_blocks.1 hb
      exact hne (hi.symm.trans (hall i))
  constructor
  · intro h
    refine ⟨hempty.1 h.blocks, ?_⟩
    rw [h.count, h.blocks, Multiset.card_zero]
  · rintro ⟨hall, hcount⟩
    have hblocks := hempty.2 hall
    exact ⟨by rw [hcount, hblocks, Multiset.card_zero], hblocks⟩

end Blocks

/-! ### The slot of the inode

Every call looks the inode up again. It finds the same slot each time, because no slot before that
one becomes free and no other has the number with a count. -/

/-- A slot stays the one of an inode: it has its number, no slot before it can be taken, and no
other with the number is in use. Then it does not matter that its `ref_count` wraps. -/
structure InodeCache.Pinned (s : InodeCache) (inodeId : ℕ) (i : Fin inodeCacheSize) : Prop where
  lt : inodeId < fsMaxInodes
  has : (s.cache i).inodeId = inodeId
  before : ∀ j < i, (s.cache j).refCount ≠ 0
  others : ∀ j ≠ i, (s.cache j).inodeId = inodeId → (s.cache j).refCount = 0

namespace InodeCache

variable {s t : InodeCache} {inodeId : ℕ} {i : Fin inodeCacheSize}

/-- Assigning the slot. -/
theorem Pinned.setSlot {e : InodeCacheEntry} (h : s.Pinned inodeId i) (he : e.inodeId = inodeId) :
    (s.setSlot i e).Pinned inodeId i := by
  refine ⟨h.lt, ?_, fun j hj ↦ ?_, fun j hj ↦ ?_⟩
  · rw [s.setSlot_self, he]
  · rw [s.setSlot_of_ne e hj.ne]
    exact h.before j hj
  · rw [s.setSlot_of_ne e hj]
    exact h.others j hj

/-- A read finds the slot again. -/
theorem Pinned.read (h : s.Pinned inodeId i) : ∃ t, s.inodeRead inodeId = (some i, t) ∧
    t.Pinned inodeId i ∧ (t.cache i).data = (s.cache i).data := by
  rw [inodeRead, if_neg h.lt.not_ge]
  rcases hhit : s.findSlot fun e ↦ e.inodeId = inodeId ∧ 0 < e.refCount with - | j
  · -- the count has wrapped, and the slot is taken once more
    have hzero : (s.cache i).refCount = 0 := by
      simpa [h.has] using findSlot_none hhit i
    have hfree : s.findSlot (fun e ↦ e.refCount = 0) = some i := by
      refine find_eq_some_iff.2 ⟨decide_eq_true hzero, fun j hj ↦ ?_⟩
      exact not_lt.1 fun hlt ↦ h.before j hlt (of_decide_eq_true hj)
    rw [hfree]
    exact ⟨_, rfl, h.setSlot rfl, by rw [s.setSlot_self]⟩
  · obtain ⟨hj, hpos⟩ := of_decide_eq_true (findSlot_some hhit)
    obtain rfl : j = i := by_contra fun hne ↦ hpos.ne' (h.others j hne hj)
    exact ⟨_, rfl, h.setSlot h.has, by rw [s.setSlot_self]⟩

/-- A read that misses pins the slot that it takes. -/
theorem pinned_of_miss (hmiss : s.Misses inodeId) (hread : s.inodeRead inodeId = (some i, t)) :
    t.Pinned inodeId i := by
  have hhit : (s.findSlot fun e ↦ e.inodeId = inodeId ∧ 0 < e.refCount) = none := by
    refine List.find?_eq_none.2 fun j _ ↦ ?_
    rw [decide_eq_true_iff]
    exact hmiss j
  have hlt : inodeId < fsMaxInodes := by
    by_contra hle
    rw [inodeRead, if_pos (not_lt.1 hle)] at hread
    exact absurd (congrArg Prod.fst hread) fun h ↦ by cases h
  rw [inodeRead, if_neg hlt.not_ge, hhit] at hread
  rcases hfree : s.findSlot fun e ↦ e.refCount = 0 with - | j
  · rw [hfree] at hread
    exact absurd (congrArg Prod.fst hread) fun h ↦ by cases h
  · rw [hfree] at hread
    obtain ⟨hj, rfl⟩ := Prod.mk.inj hread
    obtain rfl := Option.some.inj hj
    obtain ⟨-, hfirst⟩ := find_eq_some_iff.1 hfree
    refine ⟨hlt, ?_, fun l hl hzero ↦ ?_, fun l hl hid ↦ ?_⟩
    · rw [s.setSlot_self]
    · rw [s.setSlot_of_ne _ hl.ne] at hzero
      exact absurd hl (not_lt.2 (hfirst l (decide_eq_true hzero)))
    · rw [s.setSlot_of_ne _ hl] at hid ⊢
      exact Nat.eq_zero_of_not_pos fun hpos ↦ hmiss l ⟨hid, hpos⟩

/-- **A call on the inode** changes the inode in its slot. -/
theorem Pinned.op (h : s.Pinned inodeId i) (op : BlockOp) :
    (s.call (op.call inodeId)).1.ret = (op.exec (s.cache i).data).1 ∧
      (s.call (op.call inodeId)).2.Pinned inodeId i ∧
      ((s.call (op.call inodeId)).2.cache i).data = (op.exec (s.cache i).data).2 := by
  obtain ⟨t, hread, ht, hdata⟩ := h.read
  have hupdate : ∀ f : DiskInode → ℤ × DiskInode, s.updateInode inodeId f =
      ((f (s.cache i).data).1, t.setSlot i { t.cache i with data := (f (s.cache i).data).2 }) := by
    intro f
    rw [updateInode, hread]
    simp only [hdata]
  cases op with
  | add b =>
    rw [BlockOp.call, call, inodeAddBlock, hupdate]
    exact ⟨rfl, ht.setSlot ht.has, congrArg InodeCacheEntry.data (t.setSlot_self ..)⟩
  | remove b =>
    rw [BlockOp.call, call, inodeRemoveBlock, hupdate]
    exact ⟨rfl, ht.setSlot ht.has, congrArg InodeCacheEntry.data (t.setSlot_self ..)⟩

end InodeCache

/-! ### Any sequence of calls -/

/-- The cache and the books after a call on an inode. -/
def keepBooks (inodeId : ℕ) (u : InodeCache × Multiset ℕ) (op : BlockOp) :
    InodeCache × Multiset ℕ :=
  ((u.1.call (op.call inodeId)).2, op.enter (u.1.call (op.call inodeId)).1.ret u.2)

/-- The books are right before and after each of the calls, and each returns what it is to. -/
def BooksKept (inodeId : ℕ) (i : Fin inodeCacheSize) : List BlockOp → InodeCache × Multiset ℕ → Prop
  | [], u => (u.1.cache i).data.Books u.2
  | op :: ops, u => (u.1.cache i).data.Books u.2 ∧
      op.Returns (u.1.call (op.call inodeId)).1.ret u.2 ∧
        BooksKept inodeId i ops (keepBooks inodeId u op)

/-- The calls with the marker are made while 12 blocks are held. -/
def MarkerWhenFull (inodeId : ℕ) (i : Fin inodeCacheSize) :
    List BlockOp → InodeCache × Multiset ℕ → Prop
  | [], _ => True
  | op :: ops, u => (op.blockNum = noBlock → (u.1.cache i).data.blocks.card = directBlockCount) ∧
      MarkerWhenFull inodeId i ops (keepBooks inodeId u op)

/-- After a sequence of calls that kept them, the books agree. -/
theorem BooksKept.books {inodeId : ℕ} {i : Fin inodeCacheSize} {ops : List BlockOp}
    {u : InodeCache × Multiset ℕ} (h : BooksKept inodeId i ops u) :
    (u.1.cache i).data.Books u.2 := by
  cases ops with
  | nil => exact h
  | cons op ops => exact h.1

/-- From books that are right, they stay right under the condition. -/
theorem booksKept_iff {inodeId : ℕ} {i : Fin inodeCacheSize} (ops : List BlockOp)
    {u : InodeCache × Multiset ℕ} (hpinned : u.1.Pinned inodeId i)
    (h : (u.1.cache i).data.Books u.2) :
    BooksKept inodeId i ops u ↔ MarkerWhenFull inodeId i ops u := by
  induction ops generalizing u with
  | nil => exact iff_of_true h trivial
  | cons op ops ih =>
    obtain ⟨hret, hpinned', hdata⟩ := hpinned.op op
    have hright : (op.Returns (u.1.call (op.call inodeId)).1.ret u.2 ∧
        ((keepBooks inodeId u op).1.cache i).data.Books (keepBooks inodeId u op).2) ↔
        (op.blockNum = noBlock → (u.1.cache i).data.blocks.card = directBlockCount) := by
      show _ ∧ ((u.1.call (op.call inodeId)).2.cache i).data.Books
        (op.enter (u.1.call (op.call inodeId)).1.ret u.2) ↔ _
      rw [hret, hdata]
      exact h.exec_iff op
    constructor
    · rintro ⟨-, hreturns, hrest⟩
      exact ⟨hright.1 ⟨hreturns, hrest.books⟩, (ih hpinned' hrest.books).1 hrest⟩
    · rintro ⟨hmarker, hrest⟩
      obtain ⟨hreturns, hbooks⟩ := hright.2 hmarker
      exact ⟨h, hreturns, (ih hpinned' hbooks).2 hrest⟩

/-- **When are the books on direct blocks right?** Take any state, as after `inode_cache_init` and
any calls, in which a read misses the cache and loads an inode, and any sequence of calls that add
blocks to it and remove blocks from it. At each point `block_count` counts the blocks held, these
are the blocks that were added and not removed, an add has failed only when 12 were held, and a
remove exactly when the block was not, if and only if the inode was loaded with free entries and a
`block_count` of 0, and the calls with `0xFFFFFFFF` were made while 12 blocks were held. -/
theorem books_kept_iff {s t : InodeCache} {inodeId : ℕ} {i : Fin inodeCacheSize}
    (hmiss : s.Misses inodeId) (hread : s.inodeRead inodeId = (some i, t)) (ops : List BlockOp) :
    BooksKept inodeId i ops (t, 0) ↔
      ((∀ k, (t.cache i).data.directBlocks k = noBlock) ∧ (t.cache i).data.blockCount = 0) ∧
      MarkerWhenFull inodeId i ops (t, 0) := by
  have hpinned := InodeCache.pinned_of_miss hmiss hread
  rw [← DiskInode.books_zero_iff]
  constructor
  · intro h
    exact ⟨h.books, (booksKept_iff ops hpinned h.books).1 h⟩
  · rintro ⟨hbooks, h⟩
    exact (booksKept_iff ops hpinned hbooks).2 h

/-! ### The first inode that is loaded -/

theorem misses_initInodes (inode : DiskInode) (inodeId : ℕ) : (initInodes inode).Misses inodeId :=
  fun _ h ↦ absurd h.2 (lt_irrefl 0)

/-- The first inode that is loaded gets the first slot. -/
theorem read_initInodes (inode : DiskInode) {inodeId : ℕ} (hlt : inodeId < fsMaxInodes) :
    (initInodes inode).inodeRead inodeId = (some ⟨0, by decide⟩,
      (initInodes inode).setSlot ⟨0, by decide⟩ ⟨inodeId, inode, 0, 1⟩) := by
  have hhit : ((initInodes inode).findSlot fun e ↦ e.inodeId = inodeId ∧ 0 < e.refCount) =
      none := by
    refine List.find?_eq_none.2 fun j _ ↦ ?_
    rw [decide_eq_true_iff]
    exact misses_initInodes inode inodeId j
  have hfree : (initInodes inode).findSlot (fun e ↦ e.refCount = 0) = some ⟨0, by decide⟩ :=
    find_eq_some_iff.2 ⟨rfl, fun j _ ↦ Nat.zero_le j⟩
  rw [InodeCache.inodeRead, if_neg hlt.not_ge, hhit, hfree]
  rfl

/-- The general theorem on an inode that was loaded with free entries. -/
theorem books_kept_initInodes : ∃ t, (initInodes
      { oneBlockInode with blockCount := 0, directBlocks := fun _ ↦ noBlock }).inodeRead 3 =
      (some ⟨0, by decide⟩, t) ∧
    BooksKept 3 ⟨0, by decide⟩ [.add 7, .add 9, .remove 7, .remove 7] (t, 0) := by
  have hread :=
    read_initInodes { oneBlockInode with blockCount := 0, directBlocks := fun _ ↦ noBlock }
    (show 3 < fsMaxInodes by decide)
  refine ⟨_, hread, (books_kept_iff (misses_initInodes _ 3) hread _).2 ⟨⟨fun k ↦ ?_, ?_⟩, ?_⟩⟩
  · rw [InodeCache.setSlot_self]
  · rw [InodeCache.setSlot_self]
  · exact ⟨fun h ↦ absurd h (by decide), fun h ↦ absurd h (by decide), fun h ↦ absurd h (by decide),
      fun h ↦ absurd h (by decide), trivial⟩

/-- An inode of zeros, as the cache holds them before anything is written to it. -/
def zeroInode : DiskInode := ⟨⟨0, 0, 0, 0, 0, 0, 0, 0⟩, 0, 0, 0, fun _ ↦ 0, 0⟩

/-- **An inode of zeros is full.** The first inode that is loaded after the kernel has started holds
12 blocks, with a `block_count` of 0, and no block can be added to it. -/
theorem zeros_full : ∃ t, (initInodes zeroInode).inodeRead 3 = (some ⟨0, by decide⟩, t) ∧
    (t.cache ⟨0, by decide⟩).data.blockCount = 0 ∧
    (t.cache ⟨0, by decide⟩).data.blocks.card = directBlockCount ∧
    (t.call (.addBlock 3 5)).1.ret = -1 ∧ ¬BooksKept 3 ⟨0, by decide⟩ [.add 5] (t, 0) := by
  have hread := read_initInodes zeroInode (show 3 < fsMaxInodes by decide)
  refine ⟨_, hread, ?_, ?_, by decide +kernel, fun h ↦ ?_⟩
  · rw [InodeCache.setSlot_self]
    rfl
  · rw [InodeCache.setSlot_self]
    exact DiskInode.full_iff.2 fun _ ↦ (by decide : 0 ≠ noBlock)
  · have hfree := (DiskInode.books_zero_iff.1 h.books).1 ⟨0, by decide⟩
    rw [InodeCache.setSlot_self] at hfree
    exact absurd hfree (by decide : 0 ≠ noBlock)

end LightNight
