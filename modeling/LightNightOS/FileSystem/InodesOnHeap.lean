import LightNightOS.FileSystem.TablesOnHeap

/-!
# Handing out inodes on the heap

`fs_init` sets up the tables on the heap as `FileSystem.fsInit` sets them up apart from it, so a run
of which every write fits is, with the same calls and results, a run of `FileSystem`
(`kernelFiles_refines`), and what holds of all runs there holds here. In particular the inodes are
handed out once (`inodes_once`).

`fs_write` does not look whether the block of the file has room, so a longer write than the first
can reach the inode table where the block lies below it. `inode_handed_out_twice` is such a run: the
block of the first write is one that was freed before `fs_init`, and the second clears the
`inode_id` of an inode in use, which the next create returns again.

* `InitSucceeds.shows` — after `fs_init` the two file systems are related;
* `kernelFiles_refines` — and they stay related, in every run whose writes fit;
* `inodes_once` — such a run returns each inode once, and a create writes the bytes of the inode
  that it returns, and no others;
* `inode_handed_out_twice` — a run with one write that does not fit.
-/

namespace LightNight

open BlockHeap Transition

namespace KernelFiles

variable {k k' : KernelFiles} {s : FileSystem MemoryState} {h : BlockHeap} {r : FileResult}
  {i size p : ℕ} {m m' : ByteMemory} {bytes : ℕ → UInt8}

/-! ### `fs_init`

The loop over the inodes clears four fields of each, the root gets fields of its own, and the
bitmaps are cleared. What comes of it in memory is what `fsInit` sets up apart from memory, so that
the two begin related. -/

/-- `fs_init` succeeds: none of the three pointers is `NULL`. -/
structure InitSucceeds (k k' : KernelFiles) : Prop where
  init : k.fsInit = some k'
  blockBitmap : k'.blockBitmap ≠ 0
  inodeBitmap : k'.inodeBitmap ≠ 0
  inodeTable : k'.inodeTable ≠ 0

/-- The fields that the loop of `fs_init` clears. -/
def cleared (inode : Inode) : Inode := { inode with inodeId := 0, type := 0, size := 0, data := 0 }

theorem fills_cleared : Fills [(.inodeId, 0), (.type, 0), (.size, 0), (.data, 0)] cleared := by
  intro m a
  simp (disch := decide) only [inodeAt, cleared, RecordLayout.assign_cons, RecordLayout.assign_nil,
    inodeLayout.get_set_self, inodeLayout.get_set_of_ne]

theorem fills_root : Fills [(.inodeId, 0), (.type, 2), (.size, 0), (.permissions, 0o755),
    (.ownerId, 0), (.linkCount, 1)] fun inode ↦
      { inode with
        inodeId := 0
        type := 2
        size := 0
        permissions := 0o755
        ownerId := 0
        linkCount := 1 } := by
  intro m a
  simp (disch := decide) only [inodeAt, RecordLayout.assign_cons, RecordLayout.assign_nil,
    inodeLayout.get_set_self, inodeLayout.get_set_of_ne]

/-- The fields of an element are assigned: the other elements stay. -/
theorem inodeAt_assign_of_ne {a j : ℕ} (hne : j ≠ i) (fields : List (InodeField × ℕ)) :
    inodeAt (inodeLayout.assign m (inodeLayout.element a i) fields) (inodeLayout.element a j) =
      inodeAt m (inodeLayout.element a j) :=
  inodeAt_congr <| (inodeLayout.assign_eqOn fields).mono fun _ hx hxi ↦
    Set.disjoint_left.1 (inodeLayout.bytes_element_disjoint hne) hx hxi

/-- The loop over the inode table. -/
theorem inodeAt_clearInodes (a n i : ℕ) :
    inodeAt (clearInodes m a n) (inodeLayout.element a i) =
      if i < n then cleared (inodeAt m (inodeLayout.element a i))
      else inodeAt m (inodeLayout.element a i) := by
  induction n with
  | zero => rfl
  | succ n ih =>
    rw [clearInodes]
    rcases eq_or_ne i n with rfl | hne
    · rw [fills_cleared, ih, if_neg (lt_irrefl i), if_pos (Nat.lt_succ_self i)]
    · rw [inodeAt_assign_of_ne hne, ih]
      exact if_congr (by omega) rfl rfl

/-- The loop writes the inodes, and nothing else. -/
theorem clearInodes_eqOn (a n : ℕ) :
    Set.EqOn (clearInodes m a n) m (Set.Ico a (a + n * sizeofInode))ᶜ := by
  induction n with
  | zero => exact fun _ _ ↦ rfl
  | succ n ih =>
    have hsize : Set.Ico a (a + n * sizeofInode) ⊆ Set.Ico a (a + (n + 1) * sizeofInode) := by
      refine Set.Ico_subset_Ico_right (Nat.add_le_add_left ?_ a)
      exact Nat.mul_le_mul_right _ n.le_succ
    have hlast := inodeLayout.bytes_element_subset (a := a) (Nat.lt_succ_self n)
    exact ((inodeLayout.assign_eqOn _).mono (Set.compl_subset_compl.2 hlast)).trans
      (ih.mono (Set.compl_subset_compl.2 hsize))

/-- **What `fs_init` leaves in the inode table.** -/
theorem inodeAt_initTables {a block inode : ℕ} (hi : i < fsMaxInodes) :
    inodeAt (initTables m block inode a) (inodeLayout.element a i) = FileSystem.initInodes (fun i ↦
      inodeAt ((m.fill block bitmapSize 0).fill inode bitmapSize 0)
        (inodeLayout.element a i)) i := by
  rw [initTables, FileSystem.initInodes]
  rcases eq_or_ne i 0 with rfl | hne
  · rw [fills_root, inodeAt_clearInodes, if_pos hi, if_pos rfl]
    rfl
  · rw [inodeAt_assign_of_ne hne, inodeAt_clearInodes, if_pos hi, if_neg hne]
    rfl

/-- Beside the inode table, `fs_init` clears the bitmaps alone. -/
theorem initTables_eqOn {a : ℕ} (block inode : ℕ) : Set.EqOn (initTables m block inode a)
    ((m.fill block bitmapSize 0).fill inode bitmapSize 0)
    (Set.Ico a (a + fsMaxInodes * sizeofInode))ᶜ := by
  have hroot := inodeLayout.bytes_element_subset (a := a) (show 0 < fsMaxInodes by decide)
  exact ((inodeLayout.assign_eqOn _).mono (Set.compl_subset_compl.2 hroot)).trans
    (clearInodes_eqOn a _)

/-- The bitmaps are cleared. -/
theorem initTables_bitmap {a b block inode : ℕ} (hb : b = block ∨ b = inode)
    (hapart : Disjoint (Set.Ico b (b + bitmapSize)) (Set.Ico a (a + sizeofInode * fsMaxInodes)))
    (hi : i < bitmapSize) : initTables m block inode a (b + i) = 0 := by
  have hmem : b + i ∈ Set.Ico b (b + bitmapSize) := ⟨by omega, by omega⟩
  rw [Nat.mul_comm] at hapart
  rw [initTables_eqOn _ _ (Set.disjoint_left.1 hapart hmem)]
  by_cases hin : b + i ∈ Set.Ico inode (inode + bitmapSize)
  · exact ByteMemory.fill_of_mem hin
  · rw [ByteMemory.fill_of_notMem hin]
    rcases hb with rfl | rfl
    exacts [ByteMemory.fill_of_mem hmem, absurd hmem hin]

/-- The block list after the three allocations of `fs_init`. -/
def afterInit (h : BlockHeap) : BlockHeap :=
  (((h.malloc bitmapSize).2.malloc bitmapSize).2.malloc (sizeofInode * fsMaxInodes)).2

/-- The three blocks that `fs_init` allocates one after the other are in use, and the inode table is
neither bitmap. -/
theorem malloc_tables {heap heap₁ heap₂ heap₃ : MemoryState} {block inode table : ℕ}
    (hheap : HoldsHeap heap h) (h₁ : heap.malloc bitmapSize = some (block, heap₁))
    (h₂ : heap₁.malloc bitmapSize = some (inode, heap₂))
    (h₃ : heap₂.malloc (sizeofInode * fsMaxInodes) = some (table, heap₃))
    (hblock : block ≠ 0) (hinode : inode ≠ 0) (htable : table ≠ 0) :
    HoldsHeap heap₃ (afterInit h) ∧ table ∈ heap₃.inUse (sizeofInode * fsMaxInodes) ∧
      block ∈ heap₃.inUse bitmapSize ∧ inode ∈ heap₃.inUse bitmapSize ∧
      table ≠ block ∧ table ≠ inode := by
  obtain ⟨hheld₁, -⟩ := hheap.malloc h₁
  obtain ⟨hheld₂, -⟩ := hheld₁.malloc h₂
  have huse₁ : block ∈ heap₂.inUse bitmapSize :=
    hheld₁.inUse_malloc h₂ (hheap.mem_inUse_malloc h₁ hblock)
  have huse₂ : inode ∈ heap₂.inUse bitmapSize := hheld₁.mem_inUse_malloc h₂ hinode
  -- the table was free when both bitmaps were in use
  have hnew : ∀ b ∈ heap₂.inUse bitmapSize, table ≠ b := fun b hb heq ↦
    hheld₂.notMem_inUse h₃ htable (heq ▸ hb)
  exact ⟨(hheld₂.malloc h₃).1, hheld₂.mem_inUse_malloc h₃ htable, hheld₂.inUse_malloc h₃ huse₁,
    hheld₂.inUse_malloc h₃ huse₂, hnew block huse₁, hnew inode huse₂⟩

/-- Setting up the tables, each inside its block, leaves the heap as it is. -/
theorem holdsHeap_initTables {heap : MemoryState} {block inode table : ℕ} (hheap : HoldsHeap heap h)
    (hblock : block ∈ heap.inUse bitmapSize) (hinode : inode ∈ heap.inUse bitmapSize)
    (htable : table ∈ heap.inUse (sizeofInode * fsMaxInodes)) :
    HoldsHeap { heap with mem := initTables heap.mem block inode table } h := by
  have hbits₁ := hheap.write hblock fun x hx ↦
    ByteMemory.fill_of_notMem (c := 0) (m := heap.mem) hx
  have hbits₂ := hbits₁.write (hheap.inUse_eq hbits₁ ▸ hinode) fun x hx ↦
    ByteMemory.fill_of_notMem (c := 0) hx
  exact hbits₂.write (hheap.inUse_eq hbits₂ ▸ htable) fun x hx ↦
    initTables_eqOn (m := heap.mem) block inode (Nat.mul_comm sizeofInode fsMaxInodes ▸ hx)

/-- What a successful `fs_init` did. -/
theorem InitSucceeds.cases {k₀ k₁ : KernelFiles} (hinit : InitSucceeds k₀ k₁) :
    ∃ block inode table heap₁ heap₂ heap,
      k₀.heap.malloc bitmapSize = some (block, heap₁) ∧
      heap₁.malloc bitmapSize = some (inode, heap₂) ∧
      heap₂.malloc (sizeofInode * fsMaxInodes) = some (table, heap) ∧
      (block ≠ 0 ∧ inode ≠ 0 ∧ table ≠ 0) ∧
      k₁ =
        { k₀ with
          freeBlocks := 10240
          freeInodes := fsMaxInodes
          blockBitmap := block
          inodeBitmap := inode
          inodeTable := table
          openFiles := fun i ↦ { k₀.openFiles i with fd := 0, inodeId := 0, refCount := 0 }
          heap := { heap with mem := initTables heap.mem block inode table } } := by
  obtain ⟨hcall, hblock, hinode, htable⟩ := hinit
  rw [fsInit] at hcall
  simp only [Option.bind_eq_bind, Option.bind_eq_some_iff] at hcall
  obtain ⟨⟨block, heap₁⟩, h₁, ⟨inode, heap₂⟩, h₂, ⟨table, heap⟩, h₃, hcall⟩ := hcall
  dsimp only at hcall
  split at hcall
  case isTrue hfail =>
    -- one of the three pointers is the `NULL` that the early return leaves
    obtain rfl := Option.some.inj hcall
    rcases hfail with hzero | hzero | hzero
    exacts [absurd hzero hblock, absurd hzero hinode, absurd hzero htable]
  case isFalse hall =>
    obtain rfl := Option.some.inj hcall
    exact ⟨block, inode, table, heap₁, heap₂, heap, h₁, h₂, h₃, ⟨hblock, hinode, htable⟩, rfl⟩

/-- **After `fs_init`** the tables are those that it sets up apart from the heap. -/
theorem InitSucceeds.shows {k₀ k₁ : KernelFiles} (hinit : InitSucceeds k₀ k₁)
    (hheap : HoldsHeap k₀.heap h) : ∃ fresh bytes s₁,
      FileSystem.InitSucceeds kernelHeap k₀.tables fresh bytes s₁ ∧ Shows k₁ s₁ (afterInit h) := by
  obtain ⟨block, inode, table, heap₁, heap₂, heap, h₁, h₂, h₃, ⟨hblock, hinode, htable⟩, rfl⟩ :=
    hinit.cases
  obtain ⟨hheld, huseTable, huseBlock, huseInode, hapart⟩ :=
    malloc_tables hheap h₁ h₂ h₃ hblock hinode htable
  have hheld' := holdsHeap_initTables hheld huseBlock huseInode huseTable
  have hinodes : ∀ i < fsMaxInodes,
      inodeAt (initTables heap.mem block inode table) (inodeLayout.element table i) = _ :=
    fun i hi ↦ inodeAt_initTables hi
  have hdata : ∀ i < fsMaxInodes, (inodeAt (initTables heap.mem block inode table)
      (inodeLayout.element table i)).data = 0 := by
    intro i hi
    rw [hinodes i hi, FileSystem.initInodes]
    split <;> rfl
  have hall : ¬(block = 0 ∨ inode = 0 ∨ table = 0) := by
    simp only [not_or]
    exact ⟨hblock, hinode, htable⟩
  refine ⟨fun i ↦ inodeAt ((heap.mem.fill block bitmapSize 0).fill inode bitmapSize 0)
    (inodeLayout.element table i), fun _ ↦ 0, _,
    ⟨FileSystem.fsInit_eq _ _ h₁ h₂ h₃ hall, Option.some_ne_none _, Option.some_ne_none _,
      Option.some_ne_none _⟩, ?_⟩
  exact
    { heap := hheld'
      blocks := by
        intro b hb
        simp only [blocks, List.mem_cons, List.not_mem_nil, or_false] at hb
        rcases hb with rfl | rfl | rfl
        exacts [hheld.inUse_eq hheld' ▸ huseTable, hheld.inUse_eq hheld' ▸ huseBlock,
          hheld.inUse_eq hheld' ▸ huseInode]
      apart := hapart
      files := fun i hi hne ↦ absurd (hdata i hi) hne
      freeBlocks := rfl
      freeInodes := rfl
      openFiles := rfl
      nextFd := rfl
      lastCreatedInode := rfl
      inodes := ⟨_, rfl, fun i hi ↦ (hinodes i hi).symm⟩
      blockBits := ⟨_, rfl, fun i hi ↦ (if_pos hi).trans
        (initTables_bitmap (Or.inl rfl) (hheld.inUse_disjoint huseBlock huseTable hapart.1.symm)
          hi).symm⟩
      inodeBits := ⟨_, rfl, fun i hi ↦ (if_pos hi).trans
        (initTables_bitmap (Or.inr rfl) (hheld.inUse_disjoint huseInode huseTable hapart.2.symm)
          hi).symm⟩
      shownHeap := hheld
      data := fun i hi hne ↦ absurd (hdata i hi) hne }

/-! ### Runs -/

/-- The condition on a call after `fs_init`: it is another one, and a write fits. -/
def Fitting (k : KernelFiles) (a : FileCall × FileResult) : Prop :=
  NotInit k.tables a ∧ k.WriteGuard a

/-- The condition means the same with the tables apart. -/
theorem Shows.writeGuard (hs : Shows k s h) {a : FileCall × FileResult} (hguard : k.WriteGuard a) :
    s.WriteGuard a := by
  obtain ⟨call, r⟩ := a
  cases call with
  | write fd buffer size =>
    refine ⟨hguard.1, fun inode hinode ↦ ?_⟩
    obtain ⟨table, htable, heq⟩ := hs.inodes
    obtain ⟨slot, hfind, hread⟩ := Option.bind_eq_some_iff.1 hinode
    obtain ⟨table', htable', hinode'⟩ := Option.bind_eq_some_iff.1 hread
    obtain rfl := Option.some.inj (htable.symm.trans htable')
    obtain rfl := Option.some.inj hinode'
    rw [hs.findFile] at hfind
    have hfound := FileSystem.findFile_some hfind
    rw [decide_eq_true_iff] at hfound
    have hread' : table (k.openFiles slot).inodeId = k.inode (k.openFiles slot).inodeId :=
      heq _ hfound.2
    rw [hs.openFiles, hread', hs.heap.inUse_eq hs.shownHeap]
    refine hguard.2 _ ?_
    rw [FileSystem.writeInode, hfind, hs.tables_inodeTable]
    rfl
  | _ => trivial

end KernelFiles

open KernelFiles in
/-- **The model with the tables apart is refined.** After a successful `fs_init` on any well-formed
heap, a run whose writes all fit is, with the same calls and results, a run of the file system that
has its tables apart from the heap; the tables hold the same at its end. -/
theorem kernelFiles_refines {k₀ k₁ k : KernelFiles} {h : BlockHeap} (hheap : HoldsHeap k₀.heap h)
    (hinit : KernelFiles.InitSucceeds k₀ k₁) {calls : List (FileCall × FileResult)}
    (hrun : Run (Guarded Fitting KernelFileStep) k₁ calls k) :
    ∃ fresh bytes s₁ s h', FileSystem.InitSucceeds kernelHeap k₀.tables fresh bytes s₁ ∧
      Run (Guarded (fun s a ↦ NotInit s a ∧ s.WriteGuard a) (FileStep kernelHeap)) s₁ calls s ∧
      Shows k s h' := by
  obtain ⟨fresh, bytes, s₁, hinit', hshows⟩ := hinit.shows hheap
  have hstep : ∀ {n k a k' s}, n < calls.length → (∃ h, Shows k s h) →
      Guarded Fitting KernelFileStep k a k' → ∃ s',
        Guarded (fun s a ↦ NotInit s a ∧ s.WriteGuard a) (FileStep kernelHeap) s a s' ∧
          ∃ h, Shows k' s' h := by
    rintro n k a k' s - ⟨h, hs⟩ ⟨hguard, hstep⟩
    obtain ⟨s', h', hstep', hs'⟩ := hs.step hguard hstep
    exact ⟨s', ⟨⟨hguard.1, hs.writeGuard hguard.2⟩, hstep'⟩, h', hs'⟩
  obtain ⟨s, hrun', h', hs⟩ := hrun.simulates
    (Guarded (fun s a ↦ NotInit s a ∧ s.WriteGuard a) (FileStep kernelHeap))
    (R := fun _ k s ↦ ∃ h, Shows k s h) hstep ⟨_, hshows⟩ le_rfl
  exact ⟨fresh, bytes, s₁, s, h', hinit', hrun', hs⟩

/-! ### Inodes are handed out once -/

namespace KernelFiles

variable {k k' : KernelFiles} {s : FileSystem MemoryState} {h : BlockHeap} {r : FileResult}
  {type : ℕ}

/-- A call that creates an inode, as a call of the function the two share. -/
theorem createdType_cases {a : FileCall} (ha : a.createdType = some type) :
    ∃ filename fields fill, (∀ k : KernelFiles, k.call a = k.createInode filename fields) ∧
      Fills fields fill ∧ ∀ inode, (fill inode).inodeId = inode.inodeId ∧ (fill inode).type = type ∧
        (fill inode).size = 0 ∧ (fill inode).data = 0 := by
  cases a with
  | createFile filename =>
    obtain rfl := Option.some.inj ha
    exact ⟨filename, _, _, fun k ↦ fsCreateFile.eq_def k filename, fills_file,
      fun _ ↦ ⟨rfl, rfl, rfl, rfl⟩⟩
  | createDir dirname =>
    obtain rfl := Option.some.inj ha
    exact ⟨dirname, _, _, fun k ↦ fsCreateDir.eq_def k dirname, fills_dir,
      fun _ ↦ ⟨rfl, rfl, rfl, rfl⟩⟩
  | _ => cases ha

/-- What a call did that created an inode: it wrote the bytes of the inode that it returned, and no
other byte. -/
structure CreatesInode (type : ℕ) (k : KernelFiles) (i : ℕ) (k' : KernelFiles) : Prop where
  table : k'.inodeTable = k.inodeTable
  others : Set.EqOn k'.heap.mem k.heap.mem (k.inodeBytes i)ᶜ
  inodeId : (k'.inode i).inodeId = i
  type : (k'.inode i).type = type
  size : (k'.inode i).size = 0
  data : (k'.inode i).data = 0

/-- The inode that is taken, where it is. -/
theorem takeInode_inode {fields : List (InodeField × ℕ)} {fill : Inode → Inode} {i : ℕ}
    (hfill : Fills fields fill) (hi : i < fsMaxInodes) :
    (k.takeInode i fields).inode i = fill { k.inode i with inodeId := i } := by
  rw [inode, inodeAddr, takeInode_inodeTable]
  exact inode_takeInode hfill hi

/-- The bytes that a create writes make an inode in use, of its type, without data. -/
theorem takeInode_creates {fields : List (InodeField × ℕ)} {fill : Inode → Inode} {i : ℕ}
    (hfill : Fills fields fill) (hset : ∀ inode, (fill inode).inodeId = inode.inodeId ∧
      (fill inode).type = type ∧ (fill inode).size = 0 ∧ (fill inode).data = 0)
    (hi : i < fsMaxInodes) : CreatesInode type k i (k.takeInode i fields) := by
  have hinode := takeInode_inode (k := k) hfill hi
  obtain ⟨hid, htype, hsize, hdata⟩ := hset { k.inode i with inodeId := i }
  exact ⟨takeInode_inodeTable k i fields, takeInode_eqOn i fields, hinode ▸ hid, hinode ▸ htype,
    hinode ▸ hsize, hinode ▸ hdata⟩

/-- A call that creates an inode does so, or returns -1 and changes nothing. -/
theorem call_creates {a : FileCall} (ha : a.createdType = some type)
    (hcall : k.call a = some (r, k')) :
    r.ret = -1 ∧ k' = k ∨ CreatesInode type k r.ret.toNat k' := by
  obtain ⟨filename, fields, fill, heq, hfill, hset⟩ := createdType_cases ha
  rw [heq, createInode.eq_def] at hcall
  split at hcall
  · obtain ⟨rfl, rfl⟩ := Prod.mk.inj (Option.some.inj hcall)
    exact Or.inl ⟨rfl, rfl⟩
  split at hcall
  · cases hcall
  split at hcall <;> obtain ⟨rfl, rfl⟩ := Prod.mk.inj (Option.some.inj hcall)
  · exact Or.inl ⟨rfl, rfl⟩
  case h_2 i hfind =>
    have hi := lt_of_find?_inode hfind
    have hret : i32 i = i := by
      rw [fsMaxInodes] at hi
      rw [i32, u32_of_lt (by omega), if_pos (by omega)]
    refine Or.inr ?_
    rw [hret, Int.toNat_natCast]
    exact takeInode_creates hfill hset hi

/-- Without an inode that is not in use, nothing is created. -/
theorem call_full {a : FileCall} (ha : a.createdType = some type) (htable : k.inodeTable ≠ 0)
    (hfull : ∀ i, 0 < i → i < fsMaxInodes → (k.inode i).inodeId ≠ 0) :
    k.call a = some (⟨-1, none⟩, k) := by
  obtain ⟨filename, fields, -, heq, -, -⟩ := createdType_cases ha
  have hnone : (List.range' 1 (fsMaxInodes - 1)).find? (fun i ↦
      inodeLayout.get .inodeId k.heap.mem (k.inodeAddr i) = 0) = none := by
    rw [List.find?_eq_none]
    intro i hi
    obtain ⟨hpos, hlt⟩ := List.mem_range'_1.1 hi
    rw [decide_eq_true_iff]
    exact hfull i hpos (by rw [fsMaxInodes] at hlt ⊢; omega)
  rw [heq, createInode.eq_def]
  cases filename with
  | none => rfl
  | some filename => simp only [if_neg htable, hnone]

end KernelFiles

/-- The creates have returned every inode behind the root. -/
def AllCreated (calls : List (FileCall × FileResult)) : Prop :=
  ∀ i, 0 < i → i < fsMaxInodes → i ∈ createdInodes calls

/-- **Inodes are handed out once, as long as every write fits.** After a successful `fs_init` and
any other calls of which every write fits the block of its file, the inodes that `fs_create_file`
and `fs_create_dir` have returned are distinct, and none is the root or out of range. A create
writes the bytes of the inode it returns and no others, or returns -1 and changes nothing; it does
the latter whenever every inode has been returned. -/
theorem inodes_once {k₀ k₁ k : KernelFiles} {h : BlockHeap} (hheap : HoldsHeap k₀.heap h)
    (hinit : KernelFiles.InitSucceeds k₀ k₁) {calls : List (FileCall × FileResult)}
    (hrun : Run (Guarded KernelFiles.Fitting KernelFileStep) k₁ calls k) :
    (createdInodes calls).Nodup ∧ (∀ i ∈ createdInodes calls, 0 < i ∧ i < fsMaxInodes) ∧
      ∀ a type, a.createdType = some type →
        (∀ r k', KernelFileStep k (a, r) k' →
          r.ret = -1 ∧ k' = k ∨ KernelFiles.CreatesInode type k r.ret.toNat k') ∧
        (AllCreated calls → k.call a = some (⟨-1, none⟩, k)) := by
  obtain ⟨_, _, s₁, s, h', hinit', hrun', hs⟩ := kernelFiles_refines hheap hinit hrun
  have huse : s.InodeUse (createdInodes calls) :=
    hrun'.traced (I := fun calls s ↦ s.InodeUse (createdInodes calls))
      (fun h hstep ↦ by rw [createdInodes_append]; exact h.step ⟨hstep.1.1, hstep.2⟩)
      (FileSystem.inodeUse_init hinit')
  refine ⟨huse.nodup, huse.range, fun a type ha ↦ ⟨fun r k' hstep ↦ ?_, fun hall ↦ ?_⟩⟩
  · exact KernelFiles.call_creates ha hstep
  · obtain ⟨table, htable, hiff⟩ := huse.table
    obtain ⟨table', htable', heq⟩ := hs.inodes
    obtain rfl := Option.some.inj (htable.symm.trans htable')
    refine KernelFiles.call_full ha hs.inodeTable_ne_zero fun i hpos hlt ↦ ?_
    rw [← heq i hlt]
    exact (hiff i hpos hlt).2 (hall i hpos hlt)

/-! ### A table that is written over

The run is built call by call on the bytes. The block that was freed before `fs_init` lies below the
blocks of `fs_init`, and the first write puts the data of the file there. The second write starts at
the same address, goes over the two bitmaps, and ends with the `inode_id` of inode 1. -/

namespace KernelFiles

variable {k k' : KernelFiles} {s : FileSystem MemoryState} {h : BlockHeap} {i size : ℕ}
  {bytes : ℕ → UInt8}

/-- The static variables at boot. -/
def boot (heap : MemoryState) : KernelFiles where
  lastCreatedInode := noInode
  nextFd := 1
  openFiles := fun _ ↦ ⟨0, 0, 0, 0, 0⟩
  inodeTable := 0
  blockBitmap := 0
  inodeBitmap := 0
  freeBlocks := 0
  freeInodes := 0
  heap := heap

/-- `fs_init` succeeds where there is room for its three blocks. -/
theorem exists_fsInit (hheap : HoldsHeap k.heap h) (hblock : (h.malloc bitmapSize).1 ≠ 0)
    (hinode : ((h.malloc bitmapSize).2.malloc bitmapSize).1 ≠ 0)
    (htable : (((h.malloc bitmapSize).2.malloc bitmapSize).2.malloc
      (sizeofInode * fsMaxInodes)).1 ≠ 0) :
    ∃ k', InitSucceeds k k' ∧ k'.inodeTable = (((h.malloc bitmapSize).2.malloc bitmapSize).2.malloc
        (sizeofInode * fsMaxInodes)).1 ∧ k'.nextFd = k.nextFd ∧
      k'.openFiles = fun i ↦ { k.openFiles i with fd := 0, inodeId := 0, refCount := 0 } := by
  obtain ⟨heap₁, h₁, hheld₁⟩ := hheap.exists_malloc bitmapSize
  obtain ⟨heap₂, h₂, hheld₂⟩ := hheld₁.exists_malloc bitmapSize
  obtain ⟨heap₃, h₃, -⟩ := hheld₂.exists_malloc (sizeofInode * fsMaxInodes)
  have hall : ¬((h.malloc bitmapSize).1 = 0 ∨ ((h.malloc bitmapSize).2.malloc bitmapSize).1 = 0 ∨
      (((h.malloc bitmapSize).2.malloc bitmapSize).2.malloc (sizeofInode * fsMaxInodes)).1 =
        0) := by
    simp only [not_or]
    exact ⟨hblock, hinode, htable⟩
  rcases hinit : k.fsInit with - | k'
  · simp only [fsInit, h₁, h₂, h₃, Option.bind_eq_bind, Option.bind_some, if_neg hall] at hinit
    cases hinit
  · refine ⟨k', ?_⟩
    have hk := hinit
    simp only [fsInit, h₁, h₂, h₃, Option.bind_eq_bind, Option.bind_some, if_neg hall] at hk
    obtain rfl := Option.some.inj hk
    exact ⟨⟨hinit, hblock, hinode, htable⟩, rfl, rfl, rfl⟩

/-- `fs_alloc_inode` takes the first inode that is free. -/
theorem createInode_eq (filename : FileName) (fields : List (InodeField × ℕ))
    (htable : k.inodeTable ≠ 0) (hpos : 0 < i) (hi : i < fsMaxInodes)
    (hused : ∀ j, 0 < j → j < i → (k.inode j).inodeId ≠ 0) (hfree : (k.inode i).inodeId = 0) :
    k.createInode (some filename) fields = some (⟨i, none⟩, k.takeInode i fields) := by
  have hfind : (List.range' 1 (fsMaxInodes - 1)).find? (fun i ↦
      inodeLayout.get .inodeId k.heap.mem (k.inodeAddr i) = 0) = some i := by
    rw [List.find?_range'_eq_some]
    refine ⟨decide_eq_true hfree, List.mem_range'_1.2 ⟨hpos, ?_⟩, fun j hj hji ↦ ?_⟩
    · rw [fsMaxInodes] at hi ⊢
      omega
    · rw [Bool.not_eq_true', decide_eq_false_iff_not]
      exact hused j hj hji
  have hret : i32 i = i := by
    rw [fsMaxInodes] at hi
    rw [i32, u32_of_lt (by omega), if_pos (by omega)]
  rw [createInode.eq_def]
  simp only [if_neg htable, hfind, hret]

/-- `fs_write`, where the inode has a block. -/
theorem fsWrite_eq (bytes : ℕ → UInt8) {fd : ℕ} {slot : FileSlot} {heap : MemoryState}
    (hfind : (k.tables.findFile fun f ↦ f.fd = fd ∧ f.inodeId < fsMaxInodes) = some slot)
    (hslot : (k.openFiles slot).inodeId = i) (htable : k.inodeTable ≠ 0)
    (halloc : k.allocData (k.inodeAddr i) size = some heap)
    (hp : inodeLayout.get .data heap.mem (k.inodeAddr i) ≠ 0) (hsize : size ≠ 0) :
    k.fsWrite fd (some bytes) size = some (⟨i32 size, some bytes⟩,
      ({ k with heap := heap }.setMem (writeData heap.mem (k.inodeAddr i) size bytes)).setFile slot
        { k.openFiles slot with offset := u32 ((k.openFiles slot).offset + size) }) := by
  rw [fsWrite.eq_def]
  simp only [if_neg hsize, hfind, hslot, if_neg htable, halloc, if_neg hp]

/-- The other inodes stay when one is taken. -/
theorem inode_takeInode_of_ne {j : ℕ} (hne : j ≠ i) (fields : List (InodeField × ℕ)) :
    (k.takeInode i fields).inode j = k.inode j := by
  rw [inode, inodeAddr, takeInode_inodeTable]
  refine inodeAt_congr ((takeInode_eqOn i fields).mono ?_)
  exact fun x hx hxi ↦ Set.disjoint_left.1 (inodeBytes_disjoint hne) hx hxi

/-- A first write to an inode, with the block that it allocates. -/
theorem Shows.exists_write (hs : Shows k s h) (fd : ℕ) (slot : FileSlot) (bytes : ℕ → UInt8)
    (hfind : (k.tables.findFile fun f ↦ f.fd = fd ∧ f.inodeId < fsMaxInodes) = some slot)
    (hslot : (k.openFiles slot).inodeId = i) (hi : i < fsMaxInodes) (hdata : (k.inode i).data = 0)
    (hzero : size ≠ 0) (hsize : size < 2 ^ 32) (hp : (h.malloc (u32 (size + 1))).1 ≠ 0) :
    ∃ k' s' h', Guarded Fitting KernelFileStep k
        (.write fd (some bytes) size, ⟨i32 size, some bytes⟩) k' ∧
      Shows k' s' h' ∧ k'.inodeTable = k.inodeTable ∧
      (∀ j < fsMaxInodes, k'.inode j = Function.update k.inode i
        { k.inode i with data := (h.malloc (u32 (size + 1))).1, size := size } j) ∧
      k'.openFiles = Function.update k.openFiles slot
        { k.openFiles slot with offset := u32 ((k.openFiles slot).offset + size) } := by
  obtain ⟨table, htable, heq⟩ := hs.inodes
  obtain ⟨heap₁, hmalloc, -⟩ := hs.heap.exists_malloc (u32 (size + 1))
  have hget : inodeLayout.get .data k.heap.mem (k.inodeAddr i) = (k.inode i).data := rfl
  obtain ⟨heap, halloc⟩ : ∃ heap, k.allocData (k.inodeAddr i) size = some heap := by
    rw [KernelFiles.allocData, hget, if_neg (not_not.2 hdata), hmalloc]
    exact ⟨_, rfl⟩
  rcases hs.allocData hi hsize (Or.inl hdata) halloc with ⟨-, -, hblock⟩ | ⟨shown, hall⟩
  · rw [FileSystem.dataBlock, if_neg (not_not.2 hdata)] at hblock
    exact absurd (hs.shownHeap.malloc hblock).2.symm hp
  · rw [dataBlock, if_pos hdata] at hall
    have hcall := fsWrite_eq bytes hfind hslot hs.inodeTable_ne_zero halloc
      (hall.get_data ▸ hp) hzero
    have hstored := (hall.writeData bytes hs hi hsize htable).setFile slot
      { k.openFiles slot with offset := u32 ((k.openFiles slot).offset + size) }
    have hfits : k.tables.WriteFits fd size := by
      intro inode hread
      rw [FileSystem.writeInode, hfind, hs.tables_inodeTable] at hread
      obtain rfl := Option.some.inj hread
      exact Or.inl (hslot ▸ hdata)
    refine ⟨_, _, _, ⟨⟨trivial, hsize, hfits⟩, hcall⟩, hstored, rfl, fun j hj ↦ ?_, rfl⟩
    obtain ⟨table', htable', heq'⟩ := hstored.inodes
    obtain rfl := Option.some.inj htable'
    rw [← heq' j hj]
    rcases eq_or_ne j i with rfl | hne
    · rw [Function.update_self, Function.update_self]
    · rw [Function.update_of_ne hne, Function.update_of_ne hne, heq j hj]

end KernelFiles

/-! The small machine, on which a block was freed before `fs_init`. -/

/-- The block list after `malloc(100)`, `malloc(16)` and `free` of the first block. -/
def freedHeap : BlockHeap :=
  ((smallHeap.malloc 100).2.malloc 16).2.free 0xffff800000200018

/-- The first block is the one that was freed; the inode table comes behind. -/
theorem freedHeap_blocks : (smallHeap.malloc 100).1 = 0xffff800000200018 ∧
    LeavesHolesGuarded 0xffff800000200018 ((smallHeap.malloc 100).2.malloc 16).2.blocks ∧
    (freedHeap.malloc bitmapSize).1 ≠ 0 ∧
    ((freedHeap.malloc bitmapSize).2.malloc bitmapSize).1 ≠ 0 ∧
    (((freedHeap.malloc bitmapSize).2.malloc bitmapSize).2.malloc
      (sizeofInode * fsMaxInodes)).1 = 0xffff8000002020f0 ∧
    ((KernelFiles.afterInit freedHeap).malloc 10).1 = 0xffff800000200018 := by
  decide +kernel

theorem freedHeap_run : ∃ s₁ s₂ p s₃,
    (initPage smallMap .zeroed).2.malloc 100 = some (0xffff800000200018, s₁) ∧
    s₁.malloc 16 = some (p, s₂) ∧ s₂.free 0xffff800000200018 = some s₃ ∧
      HoldsHeap s₃ freedHeap := by
  obtain ⟨hp, hguard, -⟩ := freedHeap_blocks
  obtain ⟨s₁, h₁, hheld₁⟩ := holdsHeap_smallHeap.exists_malloc 100
  obtain ⟨s₂, h₂, hheld₂⟩ := hheld₁.exists_malloc 16
  rw [hp] at h₁
  have huse := hheld₁.inUse_malloc h₂ (holdsHeap_smallHeap.mem_inUse_malloc h₁ (by decide))
  obtain ⟨s₃, h₃, hheld₃⟩ := hheld₂.exists_free_guarded huse hguard
  exact ⟨s₁, s₂, _, s₃, h₁, h₂, h₃, hheld₃⟩

/-- The name of the file that is created, opened and written to. -/
def nameA : FileName := ⟨fileName "a", zero_notMem_a⟩

namespace KernelFiles

variable {k k₁ k₂ : KernelFiles} {s : FileSystem MemoryState} {h : BlockHeap}

/-- `fs_open`, when no file is open. -/
theorem call_openFirst (hfiles : k.openFiles = fun _ ↦ ⟨0, 0, 0, 0, 0⟩) (hfd : k.nextFd = 1)
    (hlast : k.lastCreatedInode = 1) : k.call (.open (some nameA) 3) = some (⟨1, none⟩,
      { k with
        openFiles := Function.update (fun _ ↦ ⟨0, 0, 0, 0, 0⟩) 0 ⟨1, 1, 0, 3, 1⟩
        nextFd := 2 }) := by
  have hfind : (k.tables.findFile fun f ↦ f.refCount = 0) = some 0 := by
    rw [FileSystem.findFile, tables, hfiles]
    rfl
  have hlookup : k.tables.lookup nameA = 1 := by
    rw [FileSystem.lookup, tables, hlast]
    rfl
  have hfd' : k.tables.nextFd = 1 := hfd
  have hopen : k.tables.fsOpen (some nameA) 3 = (⟨1, none⟩,
      { k.tables.setFile 0 ⟨1, 1, 0, 3, 1⟩ with nextFd := 2 }) := by
    rw [FileSystem.fsOpen.eq_def]
    simp only [hfind, hlookup, hfd']
    rfl
  rw [call, hopen, onFiles, ← hfiles]
  rfl

/-- After `fs_init`, the inodes behind the root are free and have no data. -/
theorem InitSucceeds.free (hinit : InitSucceeds k k₁) (hheap : HoldsHeap k.heap h) {i : ℕ}
    (hpos : 0 < i) (hi : i < fsMaxInodes) : (k₁.inode i).inodeId = 0 ∧ (k₁.inode i).data = 0 := by
  obtain ⟨_, _, s₁, hinit', hs₁⟩ := hinit.shows hheap
  obtain ⟨table, htable, heq⟩ := hs₁.inodes
  obtain ⟨-, -, htable', -⟩ := hinit'.tables
  obtain rfl := Option.some.inj (htable.symm.trans htable')
  rw [← heq i hi, FileSystem.initInodes, if_neg (Nat.pos_iff_ne_zero.1 hpos)]
  exact ⟨rfl, rfl⟩

end KernelFiles

open KernelFiles in
/-- A file is created, opened and written to: its data is in the block that was freed, its inode is
inode 1. -/
theorem shortWrite_onHeap {heap : MemoryState} (hheap : HoldsHeap heap freedHeap)
    (bytes : ℕ → UInt8) : ∃ k₁ k s h, KernelFiles.InitSucceeds (boot heap) k₁ ∧
      Run (Guarded Fitting KernelFileStep) k₁ (shortWrite bytes).tail k ∧ Shows k s h ∧
      k.inodeTable = 0xffff8000002020f0 ∧
      (k.tables.findFile fun f ↦ f.fd = 1 ∧ f.inodeId < fsMaxInodes) = some 0 ∧
      (k.openFiles 0).inodeId = 1 ∧ (k.inode 1).inodeId = 1 ∧
      (k.inode 1).data = 0xffff800000200018 ∧ (k.inode 2).inodeId = 0 := by
  obtain ⟨-, -, hblock, hinode, htable, hdata⟩ := freedHeap_blocks
  obtain ⟨k₁, hinit, htable₁, hfd₁, hfiles₁⟩ := exists_fsInit (k := boot heap) hheap hblock hinode
    (htable ▸ by decide)
  rw [htable] at htable₁
  obtain ⟨-, -, s₁, -, hs₁⟩ := hinit.shows hheap
  have hfree := hinit.free hheap (Nat.one_pos) (show 1 < fsMaxInodes by decide)
  have hfree₂ := hinit.free hheap (Nat.two_pos) (show 2 < fsMaxInodes by decide)
  have hcreate : k₁.fsCreateFile (some nameA) = some (⟨1, none⟩, k₁.takeInode 1 fileFields) :=
    createInode_eq (i := 1) nameA fileFields hs₁.inodeTable_ne_zero Nat.one_pos (by decide)
      (fun j hj hj' ↦ absurd hj' (by omega)) hfree.1
  obtain ⟨s₂, -, hs₂⟩ := hs₁.create fills_file (fun _ ↦ rfl) hcreate
  have hinode₁ := takeInode_inode (k := k₁) fills_file (show 1 < fsMaxInodes by decide)
  have hinode₂ := inode_takeInode_of_ne (k := k₁) (show 2 ≠ 1 by decide) fileFields
  have htable₂ := takeInode_inodeTable k₁ 1 fileFields
  have hopen : (k₁.takeInode 1 fileFields).call (.open (some nameA) 3) = _ :=
    call_openFirst hfiles₁ hfd₁ rfl
  have hrun : Run (Guarded Fitting KernelFileStep) k₁ [(.createFile (some nameA), ⟨1, none⟩),
      (.open (some nameA) 3, ⟨1, none⟩)] _ :=
    Run.cons ⟨⟨trivial, trivial⟩, hcreate⟩ (Run.single ⟨⟨trivial, trivial⟩, hopen⟩)
  have hs₃ := hs₂.setFiles (Function.update (fun _ ↦ ⟨0, 0, 0, 0, 0⟩) 0 ⟨1, 1, 0, 3, 1⟩) 2
  have hdata₃ := congrArg Inode.data hinode₁
  obtain ⟨k, s, h, hwrite, hs, htable₄, hinodes, hfiles⟩ := hs₃.exists_write (i := 1) 1 0 bytes
    rfl rfl (by decide) hdata₃ (show 9 ≠ 0 by decide) (by decide) (hdata ▸ by decide)
  have hinode₁' := hinodes 1 (by decide)
  have hinode₂' := hinodes 2 (by decide)
  rw [Function.update_self] at hinode₁'
  rw [Function.update_of_ne (by decide)] at hinode₂'
  refine ⟨k₁, k, s, h, hinit, hrun.snoc hwrite, hs, htable₄.trans (htable₂.trans htable₁),
    ?_, ?_, ?_, ?_, ?_⟩
  · rw [FileSystem.findFile, tables, hfiles]
    rfl
  · rw [hfiles]
    rfl
  · rw [hinode₁']
    exact congrArg Inode.inodeId hinode₁
  · rw [hinode₁']
    exact hdata
  · rw [hinode₂']
    exact (congrArg Inode.inodeId hinode₂).trans hfree₂.1

theorem zero_notMem_nameB : 0 ∉ fileName "b" := by decide

/-- The name of the file that is created after the writes. -/
def nameB : FileName := ⟨fileName "b", zero_notMem_nameB⟩

/-- The general theorem on two files, one of which is written to. -/
theorem inodes_once_shortWrite : ∃ heap k₁ k, HoldsHeap heap freedHeap ∧
    KernelFiles.InitSucceeds (KernelFiles.boot heap) k₁ ∧
    (createdInodes ((shortWrite fun _ ↦ 65).tail ++
      [(.createFile (some nameB), ⟨2, none⟩)])).Nodup ∧
    (∀ i ∈ createdInodes ((shortWrite fun _ ↦ 65).tail ++
      [(.createFile (some nameB), ⟨2, none⟩)]), 0 < i ∧ i < fsMaxInodes) ∧
    ∀ a type, a.createdType = some type →
      (∀ r k', KernelFileStep k (a, r) k' →
        r.ret = -1 ∧ k' = k ∨ KernelFiles.CreatesInode type k r.ret.toNat k') ∧
      (AllCreated ((shortWrite fun _ ↦ 65).tail ++ [(.createFile (some nameB), ⟨2, none⟩)]) →
        k.call a = some (⟨-1, none⟩, k)) := by
  obtain ⟨-, -, -, heap, -, -, -, hheap⟩ := freedHeap_run
  obtain ⟨k₁, k, s, h, hinit, hrun, hs, -, -, -, hone, -, htwo⟩ :=
    shortWrite_onHeap hheap fun _ ↦ 65
  have hcreate : k.fsCreateFile (some nameB) =
      some (⟨2, none⟩, k.takeInode 2 KernelFiles.fileFields) := by
    refine KernelFiles.createInode_eq (i := 2) nameB KernelFiles.fileFields hs.inodeTable_ne_zero
      Nat.two_pos (by decide) (fun j hj hj' ↦ ?_) htwo
    obtain rfl : j = 1 := by omega
    rw [hone]
    exact Nat.one_ne_zero
  have hfull : Run (Guarded KernelFiles.Fitting KernelFileStep) k₁ ((shortWrite fun _ ↦ 65).tail ++
      [(.createFile (some nameB), ⟨2, none⟩)]) _ :=
    hrun.snoc ⟨⟨trivial, trivial⟩, hcreate⟩
  exact ⟨heap, k₁, _, hheap, hinit, inodes_once hheap hinit hfull⟩

/-- A write of zeros from below an inode that ends in its `inode_id`. -/
theorem KernelFiles.get_inodeId_writeData {m : ByteMemory} {a p size : ℕ}
    (hp : inodeLayout.get .data m a = p) (hend : p + size = a + 3) (hsize : 3 ≤ size) :
    inodeLayout.get .inodeId (writeData m a size fun _ ↦ 0) a = 0 := by
  have hcopy : inodeLayout.get .data
      (fun x ↦ if p ≤ x ∧ x < p + size then (0 : UInt8) else m x) a = p := by
    rw [← hp]
    refine ByteMemory.load_congr fun x hx ↦ if_neg fun hxp ↦ ?_
    have hlo : a + 96 ≤ x := hx.1
    omega
  have hzero : Set.EqOn (ByteMemory.store
      (fun x ↦ if p ≤ x ∧ x < p + size then (0 : UInt8) else m x) (p + size) 1 0) (fun _ ↦ 0)
      (Set.Ico (a + 0) (a + 0 + 4)) := by
    intro x hx
    have hlo := hx.1
    have hhi := hx.2
    rw [ByteMemory.store]
    split
    case isTrue hend' =>
      obtain rfl : x = p + size := by omega
      rw [Nat.sub_self]
      rfl
    case isFalse hend' => exact if_pos ⟨by omega, by omega⟩
  rw [writeData, hp, hcopy, inodeLayout.get_set_of_ne (by decide)]
  exact (ByteMemory.load_congr hzero).trans rfl

/-- **An inode is handed out twice.** A block is freed before `fs_init`. The first write to a file,
of 9 bytes, puts its data there; the second, of 8515 zeros, ends in the `inode_id` of its inode,
which the next create returns again. -/
theorem inode_handed_out_twice : ∃ s₁ s₂ p s₃ k₁ k,
    (initPage smallMap .zeroed).2.malloc 100 = some (0xffff800000200018, s₁) ∧
    s₁.malloc 16 = some (p, s₂) ∧ s₂.free 0xffff800000200018 = some s₃ ∧
    KernelFiles.InitSucceeds (KernelFiles.boot s₃) k₁ ∧
    Run (Guarded (fun k a ↦ NotInit k.tables a) KernelFileStep) k₁
      ((shortWrite fun _ ↦ 65).tail ++ [(.write 1 (some fun _ ↦ 0) 8515, ⟨8515, some fun _ ↦ 0⟩),
        (.createFile (some nameB), ⟨1, none⟩)]) k ∧
    ¬(createdInodes ((shortWrite fun _ ↦ 65).tail ++
      [(.write 1 (some fun _ ↦ 0) 8515, ⟨8515, some fun _ ↦ 0⟩),
        (.createFile (some nameB), ⟨1, none⟩)])).Nodup := by
  obtain ⟨s₁, s₂, p, s₃, h₁, h₂, h₃, hheap⟩ := freedHeap_run
  obtain ⟨k₁, k, s, h, hinit, hrun, hs, htable, hfind, hslot, -, hdata, -⟩ :=
    shortWrite_onHeap hheap fun _ ↦ 65
  have htable₀ := hs.inodeTable_ne_zero
  have hget : inodeLayout.get .data k.heap.mem (k.inodeAddr 1) = 0xffff800000200018 := hdata
  have halloc : k.allocData (k.inodeAddr 1) 8515 = some k.heap := by
    rw [KernelFiles.allocData, hget, if_pos (by decide)]
  have hwrite : k.fsWrite 1 (some fun _ ↦ 0) 8515 = _ :=
    KernelFiles.fsWrite_eq _ hfind hslot htable₀ halloc (hget ▸ by decide) (by decide)
  -- the last of the zeros is the last byte of the `inode_id`
  have hzero : inodeLayout.get .inodeId
      (KernelFiles.writeData k.heap.mem (k.inodeAddr 1) 8515 fun _ ↦ 0) (k.inodeAddr 1) = 0 := by
    refine KernelFiles.get_inodeId_writeData hget ?_ (by decide)
    rw [KernelFiles.inodeAddr, htable]
    rfl
  have hcreate : KernelFiles.fsCreateFile _ (some nameB) = some (⟨1, none⟩, _) :=
    KernelFiles.createInode_eq (i := 1) (k := KernelFiles.setFile (KernelFiles.setMem k
      (KernelFiles.writeData k.heap.mem (k.inodeAddr 1) 8515 fun _ ↦ 0)) 0
        { k.openFiles 0 with offset := u32 ((k.openFiles 0).offset + 8515) }) nameB
      KernelFiles.fileFields htable₀ Nat.one_pos (by decide)
      (fun j hj hj' ↦ absurd hj' (by omega)) hzero
  have hrun' : Run (Guarded (fun k a ↦ NotInit k.tables a) KernelFileStep) k₁
      (shortWrite fun _ ↦ 65).tail k := hrun.mono fun hstep ↦ ⟨hstep.1.1, hstep.2⟩
  refine ⟨s₁, s₂, p, s₃, k₁, _, h₁, h₂, h₃, hinit, hrun'.append (Run.cons ⟨trivial, hwrite⟩
    (Run.single ⟨trivial, hcreate⟩)), ?_⟩
  have hcreated : createdInodes ((shortWrite fun _ ↦ 65).tail ++
      [(.write 1 (some fun _ ↦ 0) 8515, ⟨8515, some fun _ ↦ 0⟩),
        (.createFile (some nameB), ⟨1, none⟩)]) = [1, 1] := rfl
  rw [hcreated]
  decide

end LightNight
