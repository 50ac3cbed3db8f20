import LightNightOS.FileSystem.Inodes
import LightNightOS.FileSystem.KernelFiles
import Mathlib.Data.List.Find

/-!
# The tables stay apart while writes fit

As long as every write fits the block of its file, the tables that `fs_init` has taken from the heap
keep what the calls wrote there. `Shows` relates a state of `KernelFiles` to one of `FileSystem`,
where the tables are apart from the heap: the tables of both hold the same, the blocks of the tables
are in use, the data of every file is in another block and is the same on both sides, and both hold
the same block list.

A call other than `fs_init` keeps the relation and returns the same, if it fits (`Shows.step`). Of
the memory it is used that `malloc` keeps the blocks in use and that these do not overlap; what is
in a free block may differ.

* `Shows.create` — the creates: bytes of one inode on one side, an assignment on the other;
* `Shows.write` — a write that fits;
* `Shows.step` — any call but `fs_init`.
-/

namespace LightNight

open BlockHeap Transition

namespace KernelFiles

variable {k k' : KernelFiles} {s : FileSystem MemoryState} {h : BlockHeap} {r : FileResult}
  {i size p : ℕ} {m m' : ByteMemory} {bytes : ℕ → UInt8}

/-! ### Inodes in memory -/

/-- The bytes of the inode table. -/
def tableBytes (k : KernelFiles) : Set ℕ :=
  Set.Ico k.inodeTable (k.inodeTable + sizeofInode * fsMaxInodes)

/-- The bytes of an inode. -/
def inodeBytes (k : KernelFiles) (i : ℕ) : Set ℕ := inodeLayout.bytes (k.inodeAddr i)

theorem inodeBytes_subset (hi : i < fsMaxInodes) : k.inodeBytes i ⊆ k.tableBytes := by
  rw [tableBytes, Nat.mul_comm]
  exact inodeLayout.bytes_element_subset hi

theorem inodeBytes_disjoint {j : ℕ} (hne : i ≠ j) : Disjoint (k.inodeBytes i) (k.inodeBytes j) :=
  inodeLayout.bytes_element_disjoint hne

/-- The inode that is read where a list of assignments has been made, all of values that fit. -/
def Fills (fields : List (InodeField × ℕ)) (fill : Inode → Inode) : Prop :=
  ∀ m a, inodeAt (inodeLayout.assign m a fields) a = fill (inodeAt m a)

/-- Storing the `inode_id` of an inode in memory sets it. -/
theorem inodeAt_setInodeId (a : ℕ) (hi : i < 2 ^ 32) :
    inodeAt (inodeLayout.set .inodeId m a i) a = { inodeAt m a with inodeId := i } := by
  have hself : inodeLayout.get .inodeId (inodeLayout.set .inodeId m a i) a = i :=
    inodeLayout.get_set_self hi
  simp (disch := decide) only [inodeAt, hself, inodeLayout.get_set_of_ne]

theorem inodeAt_setSize (a : ℕ) (hsize : size < 2 ^ 32) :
    inodeAt (inodeLayout.set .size m a size) a = { inodeAt m a with size := size } := by
  have hself : inodeLayout.get .size (inodeLayout.set .size m a size) a = size :=
    inodeLayout.get_set_self hsize
  simp (disch := decide) only [inodeAt, hself, inodeLayout.get_set_of_ne]

/-- Storing the data pointer sets the data pointer. -/
theorem inodeAt_setData (a : ℕ) (hp : p < 2 ^ 64) :
    inodeAt (inodeLayout.set .data m a p) a = { inodeAt m a with data := p } := by
  have hself : inodeLayout.get .data (inodeLayout.set .data m a p) a = p :=
    inodeLayout.get_set_self hp
  simp (disch := decide) only [inodeAt, hself, inodeLayout.get_set_of_ne]

theorem fills_file : Fills fileFields fun inode ↦
      { inode with
        type := 1
        size := 0
        permissions := 0o644
        ownerId := 0
        linkCount := 1
        blockCount := 0
        data := 0 } := by
  intro m a
  simp (disch := decide) only [inodeAt, fileFields, RecordLayout.assign_cons,
    RecordLayout.assign_nil, inodeLayout.get_set_self, inodeLayout.get_set_of_ne]

theorem fills_dir : Fills dirFields fun inode ↦
      { inode with
        type := 2
        size := 0
        permissions := 0o755
        ownerId := 0
        linkCount := 2
        data := 0 } := by
  intro m a
  simp (disch := decide) only [inodeAt, dirFields, RecordLayout.assign_cons,
    RecordLayout.assign_nil, inodeLayout.get_set_self, inodeLayout.get_set_of_ne]

/-! ### Blocks of their own

What keeps writes away from the tables: the tables are blocks in use, the data of a file is a block
in use that is none of them, and two blocks in use do not overlap. -/

/-- The blocks of the tables, with their sizes. -/
def blocks (k : KernelFiles) : List (ℕ × ℕ) :=
  [(k.inodeTable, sizeofInode * fsMaxInodes), (k.blockBitmap, bitmapSize),
    (k.inodeBitmap, bitmapSize)]

/-- The tables are in use on a well-formed heap, and no file has its data in them. -/
structure Sound (k : KernelFiles) (h : BlockHeap) : Prop where
  heap : HoldsHeap k.heap h
  blocks : ∀ b ∈ k.blocks, b.1 ∈ k.heap.inUse b.2
  apart : k.inodeTable ≠ k.blockBitmap ∧ k.inodeTable ≠ k.inodeBitmap
  files : ∀ i < fsMaxInodes, (k.inode i).data ≠ 0 →
    (k.inode i).data ∈ k.heap.inUse ((k.inode i).size + 1) ∧ ∀ b ∈ k.blocks, (k.inode i).data ≠ b.1

/-- The condition on a call: a write fits. -/
def WriteGuard (k : KernelFiles) (a : FileCall × FileResult) : Prop := k.tables.WriteGuard a

theorem Sound.table (hk : k.Sound h) :
    k.inodeTable ∈ k.heap.inUse (sizeofInode * fsMaxInodes) :=
  hk.blocks (k.inodeTable, _) List.mem_cons_self

theorem Sound.inodeTable_ne_zero (hk : k.Sound h) : k.inodeTable ≠ 0 :=
  MemoryState.ne_zero_of_mem_inUse hk.table

/-- Writing in the inode table leaves the heap as it is. -/
theorem Sound.holdsHeap_setMem (hk : k.Sound h) (hm : Set.EqOn m k.heap.mem k.tableBytesᶜ) :
    HoldsHeap (k.setMem m).heap h :=
  hk.heap.write hk.table fun _ hx ↦ hm hx

/-- A block in use is beside the inode table. -/
theorem Sound.disjoint_table (hk : k.Sound h) {q n : ℕ} (hq : q ∈ k.heap.inUse n)
    (hne : q ≠ k.inodeTable) : Disjoint (Set.Ico q (q + n)) k.tableBytes :=
  hk.heap.inUse_disjoint hq hk.table hne

/-- A block in use is beside every inode. -/
theorem Sound.disjoint_inode (hk : k.Sound h) {q n : ℕ} (hq : q ∈ k.heap.inUse n)
    (hne : q ≠ k.inodeTable) (hi : i < fsMaxInodes) :
    Disjoint (Set.Ico q (q + n)) (k.inodeBytes i) :=
  (hk.disjoint_table hq hne).mono_right (inodeBytes_subset hi)

/-- The bits of a table of bits. -/
def BitsShown (m : ByteMemory) (bitmap : ℕ) (bits : Option (ℕ → UInt8)) : Prop :=
  ∃ f, bits = some f ∧ ∀ i < bitmapSize, f i = m (bitmap + i)

theorem BitsShown.congr {bitmap : ℕ} {bits : Option (ℕ → UInt8)} (hbits : BitsShown m bitmap bits)
    (hm : Set.EqOn m' m (Set.Ico bitmap (bitmap + bitmapSize))) : BitsShown m' bitmap bits := by
  obtain ⟨f, rfl, hf⟩ := hbits
  exact ⟨f, rfl, fun i hi ↦ (hf i hi).trans (hm ⟨by omega, by omega⟩).symm⟩

/-- **What the tables on the heap hold is what `s` has apart from it.** -/
structure Shows (k : KernelFiles) (s : FileSystem MemoryState) (h : BlockHeap) : Prop
    extends k.Sound h where
  freeBlocks : s.freeBlocks = k.freeBlocks
  freeInodes : s.freeInodes = k.freeInodes
  openFiles : s.openFiles = k.openFiles
  nextFd : s.nextFd = k.nextFd
  lastCreatedInode : s.lastCreatedInode = k.lastCreatedInode
  inodes : ∃ table, s.inodeTable = some table ∧ ∀ i < fsMaxInodes, table i = k.inode i
  blockBits : BitsShown k.heap.mem k.blockBitmap s.blockBitmap
  inodeBits : BitsShown k.heap.mem k.inodeBitmap s.inodeBitmap
  shownHeap : HoldsHeap s.heap h
  data : ∀ i < fsMaxInodes, (k.inode i).data ≠ 0 → Set.EqOn k.heap.mem s.heap.mem
    (Set.Ico (k.inode i).data ((k.inode i).data + (k.inode i).size))

/-- A call that changes the table of open files alone. -/
theorem Shows.setFiles (hs : Shows k s h) (files : FileSlot → FileDescriptor) (n : ℕ) :
    Shows { k with openFiles := files, nextFd := n } { s with openFiles := files, nextFd := n } h :=
  { hs with
    openFiles := rfl
    nextFd := rfl }

/-- Setting a slot of the open files on both sides. -/
theorem Shows.setFile (hs : Shows k s h) (i : FileSlot) (f : FileDescriptor) :
    Shows (k.setFile i f) (s.setFile i f) h :=
  { hs with openFiles := by rw [FileSystem.setFile, KernelFiles.setFile, hs.openFiles] }

/-- Counters change on both sides. -/
theorem Shows.setCounters (hs : Shows k s h) (n i : ℕ) :
    Shows { k with freeInodes := n, lastCreatedInode := i }
      { s with freeInodes := n, lastCreatedInode := i } h :=
  { hs with
    freeInodes := rfl
    lastCreatedInode := rfl }

theorem Shows.findFile (hs : Shows k s h) (test : FileDescriptor → Bool) :
    s.findFile test = k.tables.findFile test := by
  rw [FileSystem.findFile, FileSystem.findFile, hs.openFiles]
  rfl

/-! ### Changing one inode

`Shows.update` is the one lemma by which the inodes of both sides change: the bytes of one inode are
written, the same inode is assigned, and everything else stays related. -/

/-- What is left of the other inodes when the bytes of one are written. -/
theorem inode_of_eqOn {heap : MemoryState} {j : ℕ} (hj : j < fsMaxInodes) (hne : j ≠ i)
    (hm : Set.EqOn heap.mem k.heap.mem (k.tableBytes \ k.inodeBytes i)) :
    { k with heap := heap }.inode j = k.inode j := by
  refine inodeAt_congr (a := k.inodeAddr j) (hm.mono fun x hx ↦ ?_)
  exact ⟨inodeBytes_subset hj hx, Set.disjoint_left.1 (inodeBytes_disjoint hne) hx⟩

/-- **One inode changes**, and with it the heap: the other inodes, the bitmaps and the data of the
other files stay. -/
theorem Shows.update (hs : Shows k s h) (hi : i < fsMaxInodes) {table : ℕ → Inode}
    (htable : s.inodeTable = some table) {heap shown : MemoryState} {h' : BlockHeap} {inode : Inode}
    (hheap : HoldsHeap heap h') (hshown : HoldsHeap shown h')
    (huse : ∀ n q, q ∈ k.heap.inUse n → q ∈ heap.inUse n)
    (hother : Set.EqOn heap.mem k.heap.mem (k.tableBytes \ k.inodeBytes i))
    (hbits : ∀ b, b = k.blockBitmap ∨ b = k.inodeBitmap →
      Set.EqOn heap.mem k.heap.mem (Set.Ico b (b + bitmapSize)))
    (hinode : inodeAt heap.mem (k.inodeAddr i) = inode)
    (hfile : inode.data ≠ 0 → inode.data ∈ heap.inUse (inode.size + 1) ∧
      (∀ b ∈ k.blocks, inode.data ≠ b.1) ∧
      Set.EqOn heap.mem shown.mem (Set.Ico inode.data (inode.data + inode.size)))
    (hdata : ∀ j < fsMaxInodes, j ≠ i → (k.inode j).data ≠ 0 → Set.EqOn heap.mem shown.mem
      (Set.Ico (k.inode j).data ((k.inode j).data + (k.inode j).size))) :
    Shows { k with heap := heap }
      { s with inodeTable := some (Function.update table i inode), heap := shown } h' := by
  obtain ⟨table', htable', heq⟩ := hs.inodes
  obtain rfl := Option.some.inj (htable.symm.trans htable')
  have hself : { k with heap := heap }.inode i = inode := hinode
  refine
    { hs with
      heap := hheap
      blocks := fun b hb ↦ huse b.2 b.1 (hs.blocks b hb)
      files := ?_
      inodes := ?_
      blockBits := hs.blockBits.congr (hbits _ (Or.inl rfl))
      inodeBits := hs.inodeBits.congr (hbits _ (Or.inr rfl))
      shownHeap := hshown
      data := ?_ }
  · intro j hj hne
    rcases eq_or_ne j i with rfl | hji
    · rw [hself] at hne ⊢
      exact ⟨(hfile hne).1, (hfile hne).2.1⟩
    · rw [inode_of_eqOn hj hji hother] at hne ⊢
      exact ⟨huse _ _ (hs.files j hj hne).1, (hs.files j hj hne).2⟩
  · refine ⟨_, rfl, fun j hj ↦ ?_⟩
    rcases eq_or_ne j i with rfl | hji
    · rw [Function.update_self, hself]
    · rw [Function.update_of_ne hji, inode_of_eqOn hj hji hother, heq j hj]
  · intro j hj hne
    rcases eq_or_ne j i with rfl | hji
    · rw [hself] at hne ⊢
      exact (hfile hne).2.2
    · rw [inode_of_eqOn hj hji hother] at hne ⊢
      exact hdata j hj hji hne

/-! ### Creating -/

theorem lt_of_find?_inode {test : ℕ → Bool}
    (hfind : (List.range' 1 (fsMaxInodes - 1)).find? test = some i) : i < fsMaxInodes := by
  have hmem := (List.mem_range'_1.1 (List.mem_of_find?_eq_some hfind)).2
  rw [fsMaxInodes] at hmem ⊢
  omega

/-- A find in the inode table. -/
theorem find?_inodes {table : ℕ → Inode} (htable : ∀ i < fsMaxInodes, table i = k.inode i) :
    ((List.range' 1 (fsMaxInodes - 1)).find? fun i ↦ (table i).inodeId = 0) =
      (List.range' 1 (fsMaxInodes - 1)).find? fun i ↦
        inodeLayout.get .inodeId k.heap.mem (k.inodeAddr i) = 0 := by
  refine List.find?_congr fun i hi ↦ ?_
  have hlt : i < fsMaxInodes := by
    have := (List.mem_range'_1.1 hi).2
    rw [fsMaxInodes] at this ⊢
    omega
  rw [htable i hlt]
  rfl

/-- The bytes of an inode are written, so that it has no data. -/
theorem Shows.setInode (hs : Shows k s h) (hi : i < fsMaxInodes)
    (hm : Set.EqOn m k.heap.mem (k.inodeBytes i)ᶜ) {inode : Inode}
    (hinode : inodeAt m (k.inodeAddr i) = inode) (hdata : inode.data = 0) {table : ℕ → Inode}
    (htable : s.inodeTable = some table) :
    Shows (k.setMem m) { s with inodeTable := some (Function.update table i inode) } h := by
  have hsub : (k.inodeBytes i) ⊆ k.tableBytes := inodeBytes_subset hi
  have hbeside : ∀ {q n}, q ∈ k.heap.inUse n → q ≠ k.inodeTable →
      Set.EqOn m k.heap.mem (Set.Ico q (q + n)) := fun hq hne ↦
    hm.mono fun x hx ↦ Set.disjoint_left.1 (hs.disjoint_inode hq hne hi) hx
  have hheap : HoldsHeap (k.setMem m).heap h :=
    hs.holdsHeap_setMem (hm.mono (Set.compl_subset_compl.2 hsub))
  refine hs.update hi htable hheap hs.shownHeap ?_ (hm.mono fun x hx ↦ hx.2) ?_ hinode
    (fun hne ↦ absurd hdata hne) ?_
  · exact fun n q hq ↦ hs.heap.inUse_eq hheap ▸ hq
  · rintro b (rfl | rfl)
    · exact hbeside (hs.blocks (k.blockBitmap, bitmapSize) (by simp [blocks])) hs.apart.1.symm
    · exact hbeside (hs.blocks (k.inodeBitmap, bitmapSize) (by simp [blocks])) hs.apart.2.symm
  · intro j hj _ hne
    obtain ⟨huse, hapart⟩ := hs.files j hj hne
    refine Set.EqOn.trans ((hbeside huse (hapart _ List.mem_cons_self)).mono fun x hx ↦ ?_)
      (hs.data j hj hne)
    exact ⟨hx.1, by have := hx.2; omega⟩

theorem takeInode_eqOn (i : ℕ) (fields : List (InodeField × ℕ)) :
    Set.EqOn (k.takeInode i fields).heap.mem k.heap.mem (k.inodeBytes i)ᶜ :=
  (inodeLayout.assign_eqOn fields).trans inodeLayout.set_eqOn

/-- The inode that is taken. -/
theorem inode_takeInode {fields : List (InodeField × ℕ)} {fill : Inode → Inode}
    (hfill : Fills fields fill) (hi : i < fsMaxInodes) :
    inodeAt (k.takeInode i fields).heap.mem (k.inodeAddr i) =
      fill { k.inode i with inodeId := i } :=
  (hfill _ _).trans (congrArg fill (inodeAt_setInodeId _ (hi.trans (by decide))))

/-- **Creating an inode** on the heap creates it in the table that is apart. -/
theorem Shows.create (hs : Shows k s h) {filename : Option FileName}
    {fields : List (InodeField × ℕ)} {fill : Inode → Inode} (hfill : Fills fields fill)
    (hdata : ∀ inode, (fill inode).data = 0)
    (hcreate : k.createInode filename fields = some (r, k')) :
    ∃ s', s.createInode filename fill = some (r, s') ∧ Shows k' s' h := by
  rw [createInode.eq_def] at hcreate
  rw [FileSystem.createInode.eq_def]
  obtain ⟨table, htable, heq⟩ := hs.inodes
  cases filename with
  | none =>
    obtain ⟨rfl, rfl⟩ := Prod.mk.inj (Option.some.inj hcreate)
    exact ⟨s, rfl, hs⟩
  | some filename =>
    dsimp only at hcreate
    rw [if_neg hs.inodeTable_ne_zero] at hcreate
    rw [htable]
    dsimp only
    rw [FileSystem.allocInode, find?_inodes heq]
    rcases hfind : (List.range' 1 (fsMaxInodes - 1)).find? fun i ↦
      inodeLayout.get .inodeId k.heap.mem (k.inodeAddr i) = 0 with - | i <;> rw [hfind] at hcreate
    case none =>
      obtain ⟨rfl, rfl⟩ := Prod.mk.inj (Option.some.inj hcreate)
      exact ⟨s, rfl, hs⟩
    case some =>
      obtain ⟨rfl, rfl⟩ := Prod.mk.inj (Option.some.inj hcreate)
      have hi := lt_of_find?_inode hfind
      refine ⟨_, rfl, ?_⟩
      have hupdate := hs.setInode hi (takeInode_eqOn i fields) (inode_takeInode hfill hi)
        (hdata _) htable
      rw [Function.update_self, Function.update_idem, heq i hi, hs.freeInodes]
      exact hupdate.setCounters _ i

/-! ### Writing

The two sides go through a write in three stages: the data block is found or allocated, the text is
stored in it, and the size is set. `Allocated` is the state between the first and the second. -/

/-- What `fs_write` stores, where the data is beside the inode. -/
theorem writeData_eq {a : ℕ} (hp : inodeLayout.get .data m a = p)
    (hapart : Disjoint (Set.Ico p (p + size)) (inodeLayout.bytes a)) :
    writeData m a size bytes = inodeLayout.set .size (storeText m p size bytes) a size := by
  have hcopy : Set.EqOn (fun x ↦ if p ≤ x ∧ x < p + size then bytes (x - p) else m x) m
      (inodeLayout.bytes a) := fun x hx ↦
    if_neg fun hxp ↦ Set.disjoint_left.1 hapart hxp hx
  rw [writeData, hp, inodeLayout.get_congr hcopy, hp]
  refine congrArg (fun m ↦ inodeLayout.set .size m a size) (funext fun x ↦ ?_)
  rw [ByteMemory.store, storeText]
  by_cases hx : x = p + size
  · rw [if_pos (by omega), if_neg (by omega), if_pos hx, hx, Nat.sub_self]
    rfl
  · rw [if_neg (by omega), if_neg hx]

/-- The state of `fs_write` when the inode has a block for the data. -/
structure Allocated (k : KernelFiles) (s : FileSystem MemoryState) (i size p : ℕ)
    (heap shown : MemoryState) (h : BlockHeap) : Prop where
  block : s.dataBlock kernelHeap (k.inode i) size = some (p, shown)
  held : HoldsHeap heap h
  heldShown : HoldsHeap shown h
  keeps : ∀ n q, q ∈ k.heap.inUse n →
    q ∈ heap.inUse n ∧ Set.EqOn heap.mem k.heap.mem (Set.Ico q (q + n) \ k.inodeBytes i)
  keepsShown : KeepsBlocks s.heap shown
  inode : inodeAt heap.mem (k.inodeAddr i) = { k.inode i with data := p }
  room : p ∈ heap.inUse (size + 1)
  apart : ∀ b ∈ k.blocks, p ≠ b.1

/-- The pointer in the inode. -/
theorem Allocated.get_data {heap shown : MemoryState} (hall : Allocated k s i size p heap shown h) :
    inodeLayout.get .data heap.mem (k.inodeAddr i) = p := by
  have hdata := congrArg Inode.data hall.inode
  exact hdata

/-- The block for the data, and the block list with it. -/
def dataBlock (h : BlockHeap) (data size : ℕ) : ℕ × BlockHeap :=
  if data = 0 then h.malloc (u32 (size + 1)) else (data, h)

/-- The first write to an inode allocates its block, and puts the pointer into the inode. -/
theorem Shows.allocated (hs : Shows k s h) (hi : i < fsMaxInodes) (hsize : size < 2 ^ 32)
    (hdata : (k.inode i).data = 0) {heap shown : MemoryState}
    (hmalloc : k.heap.malloc (u32 (size + 1)) = some (p, heap)) (hne : p ≠ 0)
    (hmalloc' : s.heap.malloc (u32 (size + 1)) = some (p, shown)) :
    Allocated k s i size p
      { heap with mem := inodeLayout.set .data heap.mem (k.inodeAddr i) p } shown
      (h.malloc (u32 (size + 1))).2 := by
  obtain ⟨hheap, hp⟩ := hs.heap.malloc hmalloc
  have hpos := malloc_pos (hp ▸ hne)
  have hwide : u32 (size + 1) = size + 1 := u32_of_lt <| by
    rw [u32] at hpos
    omega
  have hroom : p ∈ heap.inUse (size + 1) := hwide ▸ hs.heap.mem_inUse_malloc hmalloc hne
  have hlt := hheap.add_le_of_mem_inUse hroom
  -- the pointer goes into the inode, which is in the block of the table
  have hset := inodeLayout.set_eqOn (f := .data) (m := heap.mem) (a := k.inodeAddr i) (v := p)
  have hheld := hheap.write (hs.heap.inUse_malloc hmalloc hs.table) fun x hx ↦
    hset fun hxi ↦ hx (inodeBytes_subset hi hxi)
  have hinode : inodeAt heap.mem (k.inodeAddr i) = k.inode i :=
    inodeAt_congr ((hs.heap.mem_malloc hmalloc hs.table).mono (inodeBytes_subset hi))
  exact
    { block := by
        rw [FileSystem.dataBlock, if_neg (not_not.2 hdata)]
        exact hmalloc'
      held := hheld
      heldShown := (hs.shownHeap.malloc hmalloc').1
      keeps := fun n q hq ↦ by
        refine ⟨hheap.inUse_eq hheld ▸ hs.heap.inUse_malloc hmalloc hq, ?_⟩
        exact (hset.mono fun x hx ↦ hx.2).trans
          ((hs.heap.mem_malloc hmalloc hq).mono fun x hx ↦ hx.1)
      keepsShown := keepsBlocks_malloc hs.shownHeap hmalloc'
      inode := by rw [inodeAt_setData _ (by omega), hinode]
      room := hheap.inUse_eq hheld ▸ hroom
      apart := fun b hb heq ↦ hs.heap.notMem_inUse hmalloc hne (heq ▸ hs.blocks b hb) }

/-- `fs_write` finds the block of the data, allocates one, or gets `NULL` and changes nothing. -/
theorem Shows.allocData (hs : Shows k s h) (hi : i < fsMaxInodes) (hsize : size < 2 ^ 32)
    (hfits : (k.inode i).data = 0 ∨ (k.inode i).data ∈ k.heap.inUse (size + 1)) {heap : MemoryState}
    (halloc : k.allocData (k.inodeAddr i) size = some heap) :
    (heap = k.heap ∧ (k.inode i).data = 0 ∧
      s.dataBlock kernelHeap (k.inode i) size = some (0, s.heap)) ∨
    ∃ shown, Allocated k s i size (dataBlock h (k.inode i).data size).1 heap shown
      (dataBlock h (k.inode i).data size).2 := by
  have hget : inodeLayout.get .data k.heap.mem (k.inodeAddr i) = (k.inode i).data := rfl
  rw [KernelFiles.allocData, hget] at halloc
  rw [FileSystem.dataBlock]
  by_cases hdata : (k.inode i).data = 0
  case neg =>
    rw [if_pos hdata] at halloc
    obtain rfl := Option.some.inj halloc
    rw [dataBlock, if_neg hdata]
    refine Or.inr ⟨s.heap, ?_, hs.heap, hs.shownHeap, ?_, .refl _, rfl, hfits.resolve_left hdata,
      (hs.files i hi hdata).2⟩
    · rw [FileSystem.dataBlock, if_pos hdata]
    · exact fun n q hq ↦ ⟨hq, fun _ _ ↦ rfl⟩
  case pos =>
    rw [if_neg (not_not.2 hdata)] at halloc
    obtain ⟨⟨p, heap₁⟩, hmalloc, rfl⟩ := Option.map_eq_some_iff.1 halloc
    obtain ⟨shown, hmalloc', -⟩ := hs.shownHeap.exists_malloc (u32 (size + 1))
    have hp := (hs.heap.malloc hmalloc).2
    rw [← hp] at hmalloc'
    rw [dataBlock, if_pos hdata, ← hp]
    rcases eq_or_ne p 0 with rfl | hne
    · have hsame : heap₁ = k.heap := hs.heap.eq_of_malloc_null hmalloc
      have hsame' : shown = s.heap := hs.shownHeap.eq_of_malloc_null hmalloc'
      refine Or.inl ⟨?_, hdata, ?_⟩
      · rw [hsame]
        have hstore : inodeLayout.set .data k.heap.mem (k.inodeAddr i) 0 = k.heap.mem := by
          rw [← hdata, ← hget, inodeLayout.set_get_self]
        exact congrArg (fun m ↦ { k.heap with mem := m }) hstore
      · rw [if_neg (not_not.2 hdata)]
        exact hsame' ▸ hmalloc'
    · exact Or.inr ⟨shown, hs.allocated hi hsize hdata hmalloc hne hmalloc'⟩

/-- `memcpy` and the zero behind the bytes write the same whatever was there, and nothing beside. -/
theorem storeText_eqOn {q : ℕ} {S : Set ℕ} (hm : Set.EqOn m m' (S \ Set.Icc q (q + size))) :
    Set.EqOn (storeText m q size bytes) (storeText m' q size bytes) S := by
  intro x hx
  rw [storeText, storeText]
  split
  · rfl
  · split
    · rfl
    · exact hm ⟨hx, fun hxq ↦ by have := hxq.1; have := hxq.2; omega⟩

/-- What is written is the text and the zero behind it. -/
theorem storeText_eqOn_compl {q : ℕ} :
    Set.EqOn (storeText m q size bytes) m (Set.Icc q (q + size))ᶜ := by
  intro x hx
  rw [Set.mem_compl_iff, Set.mem_Icc] at hx
  rw [storeText, if_neg (by omega), if_neg (by omega)]

/-- What is stored is in the block of the data. -/
theorem Icc_subset_block : Set.Icc p (p + size) ⊆ Set.Ico p (p + (size + 1)) := fun x hx ↦
  ⟨hx.1, by have := hx.2; omega⟩

/-- What is stored is beside the inode table. -/
theorem Allocated.disjoint_table {heap shown : MemoryState} {h' : BlockHeap}
    (hall : Allocated k s i size p heap shown h') (hs : Shows k s h) :
    Disjoint (Set.Icc p (p + size)) k.tableBytes :=
  (hall.held.inUse_disjoint hall.room (hall.keeps _ _ hs.table).1
    (hall.apart _ List.mem_cons_self)).mono_left Icc_subset_block

/-- The state of `fs_write` when the bytes are stored and the size is set, as far as memory goes. -/
structure Written (k : KernelFiles) (i size p : ℕ) (bytes : ℕ → UInt8) (heap shown : MemoryState)
    (h : BlockHeap) (m : ByteMemory) : Prop where
  held : HoldsHeap { heap with mem := m } h
  keeps : ∀ n q, q ∈ k.heap.inUse n →
    Set.EqOn m k.heap.mem ((Set.Ico q (q + n) \ k.inodeBytes i) \ Set.Icc p (p + size))
  shown : ∀ S, Disjoint S (k.inodeBytes i) →
    Set.EqOn heap.mem shown.mem (S \ Set.Icc p (p + size)) →
      Set.EqOn m (storeText shown.mem p size bytes) S
  inode : inodeAt m (k.inodeAddr i) = { k.inode i with data := p, size := size }

/-- First the bytes of the data are written, then the size in the inode. -/
theorem Allocated.written (bytes : ℕ → UInt8) {heap shown : MemoryState} {h' : BlockHeap}
    (hall : Allocated k s i size p heap shown h') (hs : Shows k s h) (hi : i < fsMaxInodes)
    (hsize : size < 2 ^ 32) :
    Written k i size p bytes heap shown h' (writeData heap.mem (k.inodeAddr i) size bytes) := by
  have hInode : Disjoint (Set.Icc p (p + size)) (k.inodeBytes i) :=
    (hall.disjoint_table hs).mono_right (inodeBytes_subset hi)
  rw [writeData_eq hall.get_data (hInode.mono_left Set.Ico_subset_Icc_self)]
  have hset := inodeLayout.set_eqOn (f := .size) (m := storeText heap.mem p size bytes)
    (a := k.inodeAddr i) (v := size)
  have hheld := FileSystem.holdsHeap_storeText hall.held hall.room bytes
  have hinode : inodeAt (storeText heap.mem p size bytes) (k.inodeAddr i) =
      { k.inode i with data := p } :=
    (inodeAt_congr (storeText_eqOn_compl.mono fun x hx hxp ↦
      Set.disjoint_left.1 hInode hxp hx)).trans hall.inode
  exact
    { held := hheld.write (hall.held.inUse_eq hheld ▸ (hall.keeps _ _ hs.table).1) fun x hx ↦
        hset fun hxi ↦ hx (inodeBytes_subset hi hxi)
      keeps := fun n q hq ↦
        ((hset.mono fun x hx ↦ hx.1.2).trans (storeText_eqOn_compl.mono fun x hx ↦ hx.2)).trans
          ((hall.keeps n q hq).2.mono fun x hx ↦ hx.1)
      shown := fun S hS hm ↦
        (hset.mono fun x hx ↦ Set.disjoint_left.1 hS hx).trans (storeText_eqOn hm)
      inode := by rw [inodeAt_setSize _ hsize, hinode] }

/-- **Storing the data** in the block that was found. -/
theorem Allocated.writeData (bytes : ℕ → UInt8) {heap shown : MemoryState} {h' : BlockHeap}
    (hall : Allocated k s i size p heap shown h') (hs : Shows k s h) (hi : i < fsMaxInodes)
    (hsize : size < 2 ^ 32) {table : ℕ → Inode} (htable : s.inodeTable = some table) :
    Shows ({ k with heap := heap }.setMem (writeData heap.mem (k.inodeAddr i) size bytes))
      { s with
        inodeTable := some (Function.update table i { k.inode i with data := p, size := size })
        heap := kernelHeap.setMem shown (storeText shown.mem p size bytes) } h' := by
  have hmem := hall.written bytes hs hi hsize
  have hbeside := hall.disjoint_table hs
  generalize KernelFiles.writeData heap.mem (k.inodeAddr i) size bytes = m' at hmem ⊢
  have huse : ∀ {n q}, q ∈ heap.inUse n → q ∈ MemoryState.inUse n { heap with mem := m' } :=
    fun hq ↦ by rwa [hall.held.inUse_eq hmem.held]
  have hroom : p ∈ shown.inUse (size + 1) := hall.held.inUse_eq hall.heldShown ▸ hall.room
  refine hs.update hi htable hmem.held (FileSystem.holdsHeap_storeText hall.heldShown hroom bytes)
    (fun n q hq ↦ huse (hall.keeps n q hq).1) ?_ ?_ hmem.inode ?_ ?_
  · refine (hmem.keeps _ _ hs.table).mono ?_
    exact fun x hx ↦ ⟨hx, fun hxp ↦ Set.disjoint_left.1 hbeside hxp hx.1⟩
  · -- a bitmap is beside the inode and beside the data
    intro b hb
    have hblock : (b, bitmapSize) ∈ k.blocks := by
      rcases hb with rfl | rfl <;> simp [blocks]
    have hne : b ≠ k.inodeTable := by
      rcases hb with rfl | rfl
      exacts [hs.apart.1.symm, hs.apart.2.symm]
    have hInode := hs.disjoint_inode (hs.blocks _ hblock) hne hi
    have hfile := hall.held.inUse_disjoint hall.room (hall.keeps _ _ (hs.blocks _ hblock)).1
      (hall.apart _ hblock)
    refine (hmem.keeps _ _ (hs.blocks _ hblock)).mono ?_
    refine fun x hx ↦ ⟨⟨hx, ?_⟩, fun hxp ↦ ?_⟩
    · exact Set.disjoint_left.1 hInode hx
    · exact Set.disjoint_left.1 hfile (Icc_subset_block hxp) hx
  · refine fun _ ↦ ⟨huse hall.room, hall.apart, hmem.shown _ ?_ fun x hx ↦ ?_⟩
    · exact (hbeside.mono_right (inodeBytes_subset hi)).mono_left Set.Ico_subset_Icc_self
    · exact absurd ⟨hx.1.1, hx.1.2.le⟩ hx.2
  · -- the data of another file is the same on both sides before the write
    intro j hj hji hne
    obtain ⟨hjUse, hjApart⟩ := hs.files j hj hne
    have hjSub : Set.Ico (k.inode j).data ((k.inode j).data + (k.inode j).size) ⊆
        Set.Ico (k.inode j).data ((k.inode j).data + ((k.inode j).size + 1)) :=
      Set.Ico_subset_Ico_right (by omega)
    have hjInode := (hs.disjoint_inode hjUse (hjApart _ List.mem_cons_self) hi).mono_left hjSub
    refine hmem.shown _ hjInode fun x hx ↦ ?_
    calc heap.mem x = k.heap.mem x := (hall.keeps _ _ hjUse).2
          ⟨hjSub hx.1, Set.disjoint_left.1 hjInode hx.1⟩
      _ = s.heap.mem x := hs.data j hj hne hx.1
      _ = shown.mem x := ((hall.keepsShown _ _ (hs.heap.inUse_eq hs.shownHeap ▸ hjUse)).2
          (hjSub hx.1)).symm

/-- **`fs_write`** on the heap is `fs_write` with the tables apart, if it fits. -/
theorem Shows.write (hs : Shows k s h) {fd : ℕ} {buffer : Option (ℕ → UInt8)}
    (hsize : size < 2 ^ 32) (hfits : k.tables.WriteFits fd size)
    (hwrite : k.fsWrite fd buffer size = some (r, k')) :
    ∃ s' h', s.fsWrite kernelHeap fd buffer size = some (r, s') ∧ Shows k' s' h' := by
  rw [fsWrite.eq_def] at hwrite
  obtain ⟨table, htable, heq⟩ := hs.inodes
  cases buffer with
  | none =>
    obtain ⟨rfl, rfl⟩ := Prod.mk.inj (Option.some.inj hwrite)
    exact ⟨s, h, rfl, hs⟩
  | some bytes =>
    dsimp only at hwrite
    by_cases hzero : size = 0
    · rw [if_pos hzero] at hwrite
      obtain ⟨rfl, rfl⟩ := Prod.mk.inj (Option.some.inj hwrite)
      exact ⟨s, h, by rw [FileSystem.fsWrite.eq_def]; exact if_pos hzero, hs⟩
    rw [if_neg hzero] at hwrite
    rcases hfind : k.tables.findFile fun f ↦ f.fd = fd ∧ f.inodeId < fsMaxInodes with - | slot <;>
      rw [hfind] at hwrite
    case none =>
      obtain ⟨rfl, rfl⟩ := Prod.mk.inj (Option.some.inj hwrite)
      refine ⟨s, h, ?_, hs⟩
      rw [FileSystem.fsWrite.eq_def]
      simp only [if_neg hzero, hs.findFile, hfind]
    case some =>
      have hfind' := (hs.findFile _).trans hfind
      have hfile : s.openFiles slot = k.openFiles slot := congrFun hs.openFiles slot
      have hi : (k.openFiles slot).inodeId < fsMaxInodes := by
        have hfound := FileSystem.findFile_some hfind
        rw [decide_eq_true_iff] at hfound
        exact hfound.2
      have hinode : k.tables.writeInode fd = some (k.inode (k.openFiles slot).inodeId) := by
        rw [FileSystem.writeInode, hfind, tables, if_neg hs.inodeTable_ne_zero]
        rfl
      have htableInode : table (s.openFiles slot).inodeId = k.inode (k.openFiles slot).inodeId := by
        rw [hfile, heq _ hi]
      dsimp only at hwrite
      rw [if_neg hs.inodeTable_ne_zero] at hwrite
      rcases halloc : k.allocData (k.inodeAddr (k.openFiles slot).inodeId) size with - | heap <;>
        rw [halloc] at hwrite
      case none => cases hwrite
      case some =>
        dsimp only at hwrite
        rcases hs.allocData hi hsize (hfits _ hinode) halloc with
          ⟨rfl, hdata, hblock⟩ | ⟨shown, hall⟩
        · have hget : inodeLayout.get .data k.heap.mem
              (k.inodeAddr (k.openFiles slot).inodeId) = 0 := hdata
          rw [if_pos hget] at hwrite
          obtain ⟨rfl, rfl⟩ := Prod.mk.inj (Option.some.inj hwrite)
          rw [← htableInode] at hblock
          exact ⟨s, h, FileSystem.fsWrite_null bytes hfind' htable hblock hzero, hs⟩
        · obtain ⟨p, h', hall⟩ : ∃ p h',
              Allocated k s (k.openFiles slot).inodeId size p heap shown h' := ⟨_, _, hall⟩
          have hp := MemoryState.ne_zero_of_mem_inUse hall.room
          rw [hall.get_data, if_neg hp] at hwrite
          obtain ⟨rfl, rfl⟩ := Prod.mk.inj (Option.some.inj hwrite)
          have hstored := hall.writeData bytes hs hi hsize htable
          have hblock := hall.block
          rw [← htableInode] at hblock
          have hcall := FileSystem.fsWrite_stores bytes hfind' htable hblock hp hzero
          refine ⟨_, h', hcall, ?_⟩
          rw [FileSystem.stored, hfile, heq _ hi]
          exact hstored.setFile slot _

/-! ### The other calls

A call that only reads the tables returns on what is read from memory what it returns on the tables
themselves. -/

/-- A result with its open files, in another state. -/
def withFiles (s : FileSystem MemoryState) (u : FileResult × FileSystem MemoryState) :
    FileResult × FileSystem MemoryState :=
  (u.1, { s with openFiles := u.2.openFiles, nextFd := u.2.nextFd })

theorem withFiles_self (hs : Shows k s h) (r : FileResult) :
    withFiles s (r, k.tables) = (r, s) := by
  have hfiles := hs.openFiles
  have hfd := hs.nextFd
  cases s
  obtain rfl := hfiles
  obtain rfl := hfd
  rfl

theorem withFiles_setFile (hs : Shows k s h) (r : FileResult) (i : FileSlot) (f : FileDescriptor) :
    withFiles s (r, k.tables.setFile i f) = (r, s.setFile i f) := by
  have hfiles := hs.openFiles
  have hfd := hs.nextFd
  cases s
  obtain rfl := hfiles
  obtain rfl := hfd
  rfl

/-- A call that changes the open files only, done on both sides. -/
theorem Shows.onFiles (hs : Shows k s h) (u : FileResult × FileSystem MemoryState) :
    Shows (k.onFiles u).2 (withFiles s u).2 h :=
  hs.setFiles _ _

/-- `fs_open` returns the same, and opens the same file. -/
theorem Shows.open (hs : Shows k s h) (filename : Option FileName) (mode : ℕ) :
    s.fsOpen filename mode = withFiles s (k.tables.fsOpen filename mode) := by
  rw [FileSystem.fsOpen.eq_def, FileSystem.fsOpen.eq_def]
  cases filename with
  | none => exact (withFiles_self hs _).symm
  | some filename =>
    have hlookup : s.lookup filename = k.tables.lookup filename := by
      rw [FileSystem.lookup, FileSystem.lookup, hs.lastCreatedInode]
      rfl
    dsimp only
    rw [hs.findFile]
    split
    · exact (withFiles_self hs _).symm
    · rw [hlookup, hs.nextFd, FileSystem.setFile, hs.openFiles]
      rfl

theorem Shows.close (hs : Shows k s h) (fd : ℕ) :
    s.fsClose fd = withFiles s (k.tables.fsClose fd) := by
  rw [FileSystem.fsClose.eq_def, FileSystem.fsClose.eq_def, hs.findFile]
  split
  · exact (withFiles_self hs _).symm
  · dsimp only
    rw [withFiles_setFile hs, hs.openFiles]
    rfl

theorem Shows.seek (hs : Shows k s h) (fd offset : ℕ) :
    s.fsSeek fd offset = withFiles s (k.tables.fsSeek fd offset) := by
  rw [FileSystem.fsSeek.eq_def, FileSystem.fsSeek.eq_def, hs.findFile]
  split
  · exact (withFiles_self hs _).symm
  · rw [withFiles_setFile hs, hs.openFiles]
    rfl

/-- `fs_read` copies the same bytes. -/
theorem Shows.loadText (hs : Shows k s h) (hi : i < fsMaxInodes) {n : ℕ}
    (hn : n ≤ (k.inode i).size) :
    (if (k.inode i).data ≠ 0 ∧ 0 < n then
      LightNight.loadText (kernelHeap.mem s.heap) (k.inode i).data n bytes else bytes) =
    if (k.inode i).data ≠ 0 ∧ 0 < n then
      LightNight.loadText (kernelHeap.mem k.tables.heap) (k.inode i).data n bytes else bytes := by
  split
  case isTrue hdata =>
    funext x
    rw [LightNight.loadText, LightNight.loadText]
    split
    case isTrue hx => exact (hs.data i hi hdata.1 ⟨by omega, by omega⟩).symm
    case isFalse => rfl
  case isFalse => rfl

theorem Shows.tables_inodeTable (hs : Shows k s h) : k.tables.inodeTable = some k.inode :=
  if_neg hs.inodeTable_ne_zero

/-- `fs_read` returns the same bytes, since the data of the file is the same on both sides. -/
theorem Shows.read (hs : Shows k s h) {fd : ℕ} {buffer : Option (ℕ → UInt8)}
    {u : FileResult × FileSystem MemoryState}
    (hread : k.tables.fsRead kernelHeap fd buffer size = some u) :
    s.fsRead kernelHeap fd buffer size = some (withFiles s u) := by
  obtain ⟨table, htable, heq⟩ := hs.inodes
  rw [FileSystem.fsRead.eq_def] at hread ⊢
  cases buffer with
  | none =>
    obtain rfl := Option.some.inj hread
    exact congrArg some (withFiles_self hs _).symm
  | some bytes =>
    dsimp only at hread ⊢
    by_cases hzero : size = 0
    · rw [if_pos hzero] at hread ⊢
      obtain rfl := Option.some.inj hread
      exact congrArg some (withFiles_self hs _).symm
    rw [if_neg hzero] at hread ⊢
    rw [hs.findFile]
    rcases hfind : k.tables.findFile fun f ↦ f.fd = fd with - | slot <;> rw [hfind] at hread
    · obtain rfl := Option.some.inj hread
      exact congrArg some (withFiles_self hs _).symm
    · have hfile : s.openFiles slot = k.tables.openFiles slot := congrFun hs.openFiles slot
      dsimp only at hread ⊢
      rw [hfile]
      by_cases hi : (k.tables.openFiles slot).inodeId < fsMaxInodes
      · rw [if_pos hi] at hread ⊢
        simp only [hs.tables_inodeTable] at hread
        simp only [htable, heq _ hi]
        obtain rfl := Option.some.inj hread
        rw [withFiles_setFile hs, hs.loadText hi]
        split <;> omega
      · rw [if_neg hi] at hread ⊢
        obtain rfl := Option.some.inj hread
        exact congrArg some (withFiles_self hs _).symm

theorem Shows.getFileSize (hs : Shows k s h) (fd : ℕ) :
    s.fsGetFileSize fd = k.tables.fsGetFileSize fd := by
  obtain ⟨table, htable, heq⟩ := hs.inodes
  rw [FileSystem.fsGetFileSize.eq_def, FileSystem.fsGetFileSize.eq_def, hs.findFile]
  split
  · rfl
  case h_2 slot hfind =>
    have hfound := FileSystem.findFile_some hfind
    rw [decide_eq_true_iff] at hfound
    have hinode : table (k.openFiles slot).inodeId = k.inode (k.openFiles slot).inodeId :=
      heq _ hfound.2
    rw [htable, hs.tables_inodeTable, hs.openFiles, Option.map_some, Option.map_some, hinode]
    rfl

/-- **One call** other than `fs_init` on the heap is the same call with the tables apart. -/
theorem Shows.step (hs : Shows k s h) {a : FileCall × FileResult}
    (hguard : NotInit k.tables a ∧ k.WriteGuard a) (hstep : KernelFileStep k a k') :
    ∃ s' h', FileStep kernelHeap s a s' ∧ Shows k' s' h' := by
  obtain ⟨call, r⟩ := a
  obtain ⟨hnot, hguard⟩ := hguard
  have hcall : k.call call = some (r, k') := hstep
  cases call with
  | init _ _ => exact hnot.elim
  | createFile filename =>
    obtain ⟨s', heq, hs'⟩ := hs.create fills_file (fun _ ↦ rfl) hcall
    exact ⟨s', h, heq, hs'⟩
  | createDir dirname =>
    obtain ⟨s', heq, hs'⟩ := hs.create fills_dir (fun _ ↦ rfl) hcall
    exact ⟨s', h, heq, hs'⟩
  | deleteFile _ | listDir _ =>
    obtain ⟨rfl, rfl⟩ := Prod.mk.inj (Option.some.inj hcall)
    exact ⟨s, h, rfl, hs⟩
  | «open» filename mode =>
    obtain ⟨rfl, rfl⟩ := Prod.mk.inj (Option.some.inj hcall)
    exact ⟨_, h, congrArg some (hs.open filename mode), hs.onFiles _⟩
  | close fd =>
    obtain ⟨rfl, rfl⟩ := Prod.mk.inj (Option.some.inj hcall)
    exact ⟨_, h, congrArg some (hs.close fd), hs.onFiles _⟩
  | read fd buffer size =>
    obtain ⟨u, hread, heq⟩ := Option.map_eq_some_iff.1 hcall
    obtain ⟨rfl, rfl⟩ := Prod.mk.inj heq
    exact ⟨_, h, hs.read hread, hs.onFiles _⟩
  | write fd buffer size =>
    obtain ⟨s', h', heq, hs'⟩ := hs.write hguard.1 hguard.2 hcall
    exact ⟨s', h', heq, hs'⟩
  | seek fd offset =>
    obtain ⟨rfl, rfl⟩ := Prod.mk.inj (Option.some.inj hcall)
    exact ⟨_, h, congrArg some (hs.seek fd offset), hs.onFiles _⟩
  | getFileSize fd =>
    obtain ⟨u, hsize, heq⟩ := Option.map_eq_some_iff.1 hcall
    obtain ⟨rfl, rfl⟩ := Prod.mk.inj heq
    have hsame : s.fsGetFileSize fd = some u := (hs.getFileSize fd).trans hsize
    exact ⟨s, h, congrArg (Option.map fun r ↦ (r, s)) hsame, hs⟩

end KernelFiles

end LightNight
