import LightNightOS.FileSystem.OpenFiles
import LightNightOS.Memory.HeldHeap

/-!
# The data of files on the kernel's heap

The data of a file is one block of the heap. `fs_write` allocates it when the inode has none, for
the size of that write, and never again: a later write stores what it is given, and a zero behind
it, in the block that is there.

`WriteFits` is the condition that this is enough: the inode has no data yet, or its block holds one
byte more than is written. A write stays inside the block of the inode exactly where it holds, and
as long as it holds of every write the block list stays as `malloc` left it (`writes_inside_iff`).
`long_write_leaves_block` is a second write of 100 bytes into the block of a first one of 9.

* `staysInside_iff` — a write stays inside the block of the inode exactly if it fits;
* `holdsHeap_step` — a write that fits changes no header, so the heap is held afterwards;
* `FilesHeld.step`, `files_held` — in a run of such writes the blocks of the inodes stay in use;
* `writes_inside_iff` — the next write, after any such run.
-/

namespace LightNight

open BlockHeap Transition

/-- The heap of the kernel. -/
def kernelHeap : DataHeap MemoryState where
  malloc := MemoryState.malloc
  mem := MemoryState.mem
  setMem s m := { s with mem := m }

theorem kernelHeap_malloc : kernelHeap.malloc = MemoryState.malloc := rfl

/-- The payload of the block in use that `p` points to. -/
def MemoryState.allocation (s : MemoryState) (p : ℕ) : Set ℕ :=
  {x | ∃ n, p ∈ s.inUse n ∧ x ∈ Set.Ico p (p + n)}

namespace FileSystem

section Target

variable {σ : Type*}

/-- The inode that `fs_write` stores to. -/
def writeInode (s : FileSystem σ) (fd : ℕ) : Option Inode := do
  let i ← s.findFile fun f ↦ f.fd = fd ∧ f.inodeId < fsMaxInodes
  let table ← s.inodeTable
  return table (s.openFiles i).inodeId

/-- The address that `fs_write` stores at, and the heap it finds there. -/
def writeBlock (ops : DataHeap σ) (s : FileSystem σ) (fd size : ℕ) : Option (ℕ × σ) :=
  ((s.writeInode fd).bind fun inode ↦ s.dataBlock ops inode size).filter fun block ↦ block.1 ≠ 0

/-- `fs_write` changes nothing in a slot that the functions look for. -/
theorem stored_findFile {ops : DataHeap σ} {s : FileSystem σ} {i : FileSlot} {table : ℕ → Inode}
    {p size fd : ℕ} {heap : σ} {bytes : ℕ → UInt8} :
    ((stored ops s i table p heap size bytes).findFile fun f ↦ f.fd = fd ∧
      f.inodeId < fsMaxInodes) = s.findFile fun f ↦ f.fd = fd ∧ f.inodeId < fsMaxInodes := by
  rw [findFile, findFile]
  congr 1
  funext j
  by_cases hj : j = i
  · rw [hj, stored, setFile_openFiles, Function.update_self]
  · rw [stored, setFile_openFiles, Function.update_of_ne hj]

/-- A write that returns something else than -1 stores where `writeBlock` says, and what it is
given. -/
theorem fsWrite_writeBlock {ops : DataHeap σ} {s t : FileSystem σ} {fd size : ℕ} {r : FileResult}
    {buffer : Option (ℕ → UInt8)} (h : s.fsWrite ops fd buffer size = some (r, t))
    (hret : r.ret ≠ -1) : ∃ p heap bytes, s.writeBlock ops fd size = some (p, heap) ∧
      buffer = some bytes ∧ r.ret = i32 size ∧
      t.heap = ops.setMem heap (storeText (ops.mem heap) p size bytes) ∧
      (t.writeInode fd).map Inode.data = some p := by
  rcases fsWrite_cases h with
    ⟨hfail, -⟩ | ⟨i, table, p, heap, bytes, hfind, htable, hblock, hp, hbuffer, -, hsize, rfl⟩
  · exact absurd hfail hret
  refine ⟨p, heap, bytes, ?_, hbuffer, hsize, rfl, ?_⟩
  · rw [writeBlock, writeInode, hfind, htable]
    simp [hblock, hp]
  · rw [writeInode, stored_findFile, hfind]
    simp [stored]

end Target

/-! ### Writing inside the block

A write goes to `size` bytes from the data pointer on, and a zero behind them. The block is known
from the heap: it is the one in use that the pointer of the inode names. -/

/-- Every byte that `fs_write` stores, with the zero behind them, is inside the block of the
inode. -/
def StaysInside (s : FileSystem MemoryState) (fd size : ℕ) : Prop :=
  ∀ p heap, s.writeBlock kernelHeap fd size = some (p, heap) →
    Set.Icc p (p + size) ⊆ heap.allocation p

/-- The inode has no data, or a block with room for the write. -/
def WriteFits (s : FileSystem MemoryState) (fd size : ℕ) : Prop :=
  ∀ inode, s.writeInode fd = some inode → inode.data = 0 ∨ inode.data ∈ s.heap.inUse (size + 1)

/-- The condition on a call: a write fits. -/
def WriteGuard (s : FileSystem MemoryState) : FileCall × FileResult → Prop
  | (.write fd _ size, _) => size < 2 ^ 32 ∧ s.WriteFits fd size
  | _ => True

variable {s t : FileSystem MemoryState} {h : BlockHeap} {fd size p : ℕ} {heap : MemoryState}

/-- The bytes from a pointer to a live block on are inside the block exactly if the block is that
long. -/
theorem subset_allocation_iff : Set.Icc p (p + size) ⊆ heap.allocation p ↔
    p ∈ heap.inUse (size + 1) := by
  constructor
  · intro hsub
    obtain ⟨n, hn, hlt⟩ := hsub (Set.right_mem_Icc.2 (Nat.le_add_right p size))
    exact MemoryState.inUse_anti (by have := hlt.2; omega) hn
  · rintro hp x ⟨hlo, hhi⟩
    exact ⟨size + 1, hp, hlo, by omega⟩

/-- The block that a fitting write stores to, where it has none before. -/
theorem WriteFits.block (hfits : s.WriteFits fd size) (hheap : HoldsHeap s.heap h)
    (hsize : size < 2 ^ 32) (hblock : s.writeBlock kernelHeap fd size = some (p, heap)) :
    p ∈ heap.inUse (size + 1) ∧ ∃ h', HoldsHeap heap h' := by
  obtain ⟨hbind, hp⟩ := Option.filter_eq_some_iff.1 hblock
  obtain ⟨inode, hinode, hdata⟩ := Option.bind_eq_some_iff.1 hbind
  rw [dataBlock] at hdata
  split at hdata
  case isTrue hne =>
    obtain ⟨rfl, rfl⟩ := Prod.mk.inj (Option.some.inj hdata)
    exact ⟨(hfits inode hinode).resolve_left hne, h, hheap⟩
  case isFalse =>
    have hmalloc : s.heap.malloc (u32 (size + 1)) = some (p, heap) := hdata
    have hp : p ≠ 0 := by simpa using hp
    have hmem := hheap.mem_inUse_malloc hmalloc hp
    have hpos := malloc_pos ((hheap.malloc hmalloc).2 ▸ hp)
    have hwide : u32 (size + 1) = size + 1 := u32_of_lt <| by
      rw [u32] at hpos
      omega
    exact ⟨hwide ▸ hmem, _, (hheap.malloc hmalloc).1⟩

/-- The condition is exact for a write. -/
theorem staysInside_iff (hheap : HoldsHeap s.heap h) (hsize : size < 2 ^ 32) :
    s.StaysInside fd size ↔ s.WriteFits fd size := by
  constructor
  · intro hinside inode hinode
    by_cases hdata : inode.data = 0
    · exact Or.inl hdata
    · refine Or.inr (subset_allocation_iff.1 (hinside inode.data s.heap ?_))
      rw [writeBlock, hinode, Option.bind_some, dataBlock, if_pos hdata]
      simp [hdata]
  · exact fun hfits p heap hblock ↦ subset_allocation_iff.2 (hfits.block hheap hsize hblock).1

/-- A block list is left as it is by `memcpy` and the zero behind the bytes, inside a block. -/
theorem holdsHeap_storeText (hheap : HoldsHeap heap h) (hp : p ∈ heap.inUse (size + 1))
    (bytes : ℕ → UInt8) :
    HoldsHeap (kernelHeap.setMem heap (storeText heap.mem p size bytes)) h := by
  refine hheap.write hp fun x hx ↦ ?_
  rw [Set.mem_Ico] at hx
  rw [storeText, if_neg (by omega), if_neg (by omega)]

/-- **A call that meets the condition keeps the heap.** -/
theorem holdsHeap_step {a : FileCall × FileResult} (hheap : ∃ h, HoldsHeap s.heap h)
    (hguard : s.WriteGuard a) (hstep : FileStep kernelHeap s a t) : ∃ h, HoldsHeap t.heap h := by
  obtain ⟨call, r⟩ := a
  obtain ⟨h, hheap⟩ := hheap
  have hcall : s.call kernelHeap call = some (r, t) := hstep
  cases call with
  | init fresh bytes =>
    obtain ⟨u, hu, heq⟩ := Option.map_eq_some_iff.1 hcall
    obtain ⟨-, rfl⟩ := Prod.mk.inj heq
    obtain ⟨_, _, _, _, _, _, h₁, h₂, h₃, hheap', -⟩ := fsInit_cases hu
    have hheld₁ := (hheap.malloc (n := bitmapSize) h₁).1
    have hheld₂ := (hheld₁.malloc (n := bitmapSize) h₂).1
    exact ⟨_, hheap' ▸ (hheld₂.malloc (n := sizeofInode * fsMaxInodes) h₃).1⟩
  | createFile filename =>
    have hcreate : s.fsCreateFile filename = some (r, t) := hcall
    rcases createInode_cases hcreate with ⟨-, rfl⟩ | ⟨_, _, -, -, -, -, -, rfl⟩
    exacts [⟨h, hheap⟩, ⟨h, hheap⟩]
  | createDir dirname =>
    have hcreate : s.fsCreateDir dirname = some (r, t) := hcall
    rcases createInode_cases hcreate with ⟨-, rfl⟩ | ⟨_, _, -, -, -, -, -, rfl⟩
    exacts [⟨h, hheap⟩, ⟨h, hheap⟩]
  | write fd buffer size =>
    rcases fsWrite_cases hcall with ⟨-, rfl | ⟨i, table, heap, -, hblock, rfl⟩⟩ |
      ⟨i, table, p, heap, bytes, hfind, htable, hblock, hp, -, -, -, rfl⟩
    · exact ⟨h, hheap⟩
    · rw [dataBlock] at hblock
      split at hblock
      · obtain ⟨-, rfl⟩ := Prod.mk.inj (Option.some.inj hblock)
        exact ⟨h, hheap⟩
      · exact ⟨_, (hheap.malloc hblock).1⟩
    · have hwrite : s.writeBlock kernelHeap fd size = some (p, heap) := by
        rw [writeBlock, writeInode, hfind, htable]
        simp [hblock, hp]
      obtain ⟨hmem, h', hheap'⟩ := hguard.2.block hheap hguard.1 hwrite
      exact ⟨h', holdsHeap_storeText hheap' hmem bytes⟩
  | _ =>
    obtain ⟨files, n, rfl⟩ := call_onlyFiles hcall rfl
    exact ⟨h, hheap⟩

/-- Every inode has no data, or a block with room for its size and the zero behind it. -/
def FilesHeld (s : FileSystem MemoryState) : Prop :=
  ∀ table, s.inodeTable = some table → ∀ i,
    (table i).data = 0 ∨ (table i).data ∈ s.heap.inUse ((table i).size + 1)

/-- A write no longer than the file fits. -/
theorem FilesHeld.writeFits (hfiles : s.FilesHeld)
    (hsize : ∀ inode, s.writeInode fd = some inode → size ≤ inode.size) : s.WriteFits fd size := by
  intro inode hinode
  obtain ⟨i, -, hread⟩ := Option.bind_eq_some_iff.1 hinode
  obtain ⟨table, htable, heq⟩ := Option.bind_eq_some_iff.1 hread
  have hle := hsize inode hinode
  obtain rfl := Option.some.inj heq
  refine (hfiles table htable _).imp_right fun hmem ↦ ?_
  exact MemoryState.inUse_anti (Nat.succ_le_succ hle) hmem

/-- `dataBlock` keeps the blocks in use. -/
theorem inUse_dataBlock {inode : Inode} {k q : ℕ} (hheap : HoldsHeap s.heap h)
    (hblock : s.dataBlock kernelHeap inode size = some (p, heap)) (hq : q ∈ s.heap.inUse k) :
    q ∈ heap.inUse k := by
  rw [dataBlock] at hblock
  split at hblock
  · obtain ⟨-, rfl⟩ := Prod.mk.inj (Option.some.inj hblock)
    exact hq
  · exact hheap.inUse_malloc hblock hq

/-- A new inode has no data. -/
theorem FilesHeld.create {filename : Option FileName} {fill : Inode → Inode} {r : FileResult}
    (hfiles : s.FilesHeld) (hfill : ∀ inode, (fill inode).data = 0)
    (h : s.createInode filename fill = some (r, t)) : t.FilesHeld := by
  rcases createInode_cases h with ⟨-, rfl⟩ | ⟨table, i, htable, -, -, -, -, rfl⟩
  · exact hfiles
  rintro _ ⟨⟩ j
  by_cases hj : j = i
  · rw [hj, Function.update_self]
    exact Or.inl (hfill _)
  · rw [Function.update_of_ne hj]
    exact hfiles table htable j

/-- **A call other than `fs_init` keeps the files**, if it fits. -/
theorem FilesHeld.step {a : FileCall × FileResult} (hfiles : s.FilesHeld)
    (hheap : HoldsHeap s.heap h) (hguard : s.WriteGuard a)
    (hinit : ∀ fresh bytes, a.1 ≠ .init fresh bytes) (hstep : FileStep kernelHeap s a t) :
    t.FilesHeld := by
  obtain ⟨call, r⟩ := a
  have hcall : s.call kernelHeap call = some (r, t) := hstep
  cases call with
  | init fresh bytes => exact absurd rfl (hinit fresh bytes)
  | createFile filename =>
    have hcreate : s.fsCreateFile filename = some (r, t) := hcall
    exact hfiles.create (fun _ ↦ rfl) hcreate
  | createDir dirname =>
    have hcreate : s.fsCreateDir dirname = some (r, t) := hcall
    exact hfiles.create (fun _ ↦ rfl) hcreate
  | write fd buffer size =>
    rcases fsWrite_cases hcall with ⟨-, rfl | ⟨i, table, heap, htable, hblock, rfl⟩⟩ |
      ⟨i, table, p, heap, bytes, hfind, htable, hblock, hp, -, -, -, rfl⟩
    · exact hfiles
    · exact fun table' htable' j ↦
        (hfiles table' htable' j).imp_right (inUse_dataBlock hheap hblock)
    · have hwrite : s.writeBlock kernelHeap fd size = some (p, heap) := by
        rw [writeBlock, writeInode, hfind, htable]
        simp [hblock, hp]
      obtain ⟨hmem, h', hheap'⟩ := hguard.2.block hheap hguard.1 hwrite
      have hsame : ∀ k, (stored kernelHeap s i table p heap size bytes).heap.inUse k =
          heap.inUse k := fun k ↦ hheap'.inUse_eq (holdsHeap_storeText hheap' hmem bytes)
      rintro _ ⟨⟩ j
      rw [hsame]
      by_cases hj : j = (s.openFiles i).inodeId
      · rw [hj, Function.update_self]
        exact Or.inr hmem
      · rw [Function.update_of_ne hj]
        exact (hfiles table htable j).imp_right (inUse_dataBlock hheap hblock)
  | _ =>
    obtain ⟨files, n, rfl⟩ := call_onlyFiles hcall rfl
    exact hfiles

end FileSystem

/-- **Writes stay inside the block of the file.** In every state reached from a well-formed heap by
calls of which every write fits, a call of `fs_write` stores inside the block in use that the inode
points to if and only if it fits: the inode has no data yet, or its block holds `size + 1` bytes. -/
theorem writes_inside_iff {heap : MemoryState} {h : BlockHeap} (hheap : HoldsHeap heap h)
    {calls : List (FileCall × FileResult)} {s : FileSystem MemoryState}
    (hrun : Run (Guarded FileSystem.WriteGuard (FileStep kernelHeap))
      (FileSystem.boot heap) calls s)
    {size : ℕ} (hsize : size < 2 ^ 32) (fd : ℕ) : s.StaysInside fd size ↔ s.WriteFits fd size := by
  obtain ⟨h', hheap'⟩ : ∃ h, HoldsHeap s.heap h :=
    hrun.invariant (I := fun s ↦ ∃ h, HoldsHeap s.heap h)
      (fun hheld hstep ↦ FileSystem.holdsHeap_step hheld hstep.1 hstep.2) ⟨h, hheap⟩
  exact FileSystem.staysInside_iff hheap' hsize

/-- **Files are held by their blocks.** From a successful `fs_init` on, as long as every write fits,
each inode has no data or a block in use that holds its size and one byte more. So a write that is
no longer than what the file holds always fits. -/
theorem files_held {heap : MemoryState} {h : BlockHeap} (hheap : HoldsHeap heap h)
    {fresh : ℕ → Inode} {bytes : ℕ → UInt8} {r : FileResult} {s₀ : FileSystem MemoryState}
    (hinit : FileStep kernelHeap (FileSystem.boot heap) (.init fresh bytes, r) s₀)
    (hok : s₀.inodeTable = some (FileSystem.initInodes fresh))
    {calls : List (FileCall × FileResult)} {s : FileSystem MemoryState}
    (hrun : Run (Guarded (fun s a ↦ s.WriteGuard a ∧ ∀ fresh bytes, a.1 ≠ .init fresh bytes)
      (FileStep kernelHeap)) s₀ calls s) : s.FilesHeld := by
  have hheap₀ : ∃ h, HoldsHeap s₀.heap h :=
    FileSystem.holdsHeap_step ⟨h, hheap⟩ (a := (.init fresh bytes, r)) trivial hinit
  have hfiles₀ : s₀.FilesHeld := by
    intro table htable i
    obtain rfl := Option.some.inj (hok.symm.trans htable)
    refine Or.inl ?_
    rw [FileSystem.initInodes]
    split <;> rfl
  refine (hrun.invariant (I := fun s ↦ s.FilesHeld ∧ ∃ h, HoldsHeap s.heap h) ?_
    ⟨hfiles₀, hheap₀⟩).1
  rintro s a t ⟨hfiles, h, hheap⟩ ⟨⟨hguard, hother⟩, hstep⟩
  exact ⟨hfiles.step hheap hguard hother hstep,
    FileSystem.holdsHeap_step ⟨h, hheap⟩ hguard hstep⟩

/-! ### A short write and a long one -/

/-- The file system after `fs_init` on memory that was cleared. -/
def clearInit {σ : Type*} (heap : σ) : FileSystem σ where
  freeBlocks := 10240
  freeInodes := fsMaxInodes
  inodeTable := some (FileSystem.initInodes fun _ ↦ ⟨0, 0, 0, 0, 0, 0, 0, 0⟩)
  blockBitmap := some fun i ↦ if i < bitmapSize then 0 else 0
  inodeBitmap := some fun i ↦ if i < bitmapSize then 0 else 0
  openFiles := fun _ ↦ ⟨0, 0, 0, 0, 0⟩
  nextFd := 1
  lastCreatedInode := noInode
  heap := heap

/-- `fs_init` on memory that is cleared, where the heap has room for the tables. -/
theorem clearInit_step {σ : Type*} {ops : DataHeap σ} {heap heap₁ heap₂ heap₃ : σ}
    {block inode table : ℕ} (h₁ : ops.malloc heap bitmapSize = some (block, heap₁))
    (h₂ : ops.malloc heap₁ bitmapSize = some (inode, heap₂))
    (h₃ : ops.malloc heap₂ (sizeofInode * fsMaxInodes) = some (table, heap₃))
    (hall : ¬(block = 0 ∨ inode = 0 ∨ table = 0)) :
    FileStep ops (FileSystem.boot heap) (initCall, ⟨0, none⟩) (clearInit heap₃) := by
  have hinit : (FileSystem.boot heap).fsInit ops (fun _ ↦ ⟨0, 0, 0, 0, 0, 0, 0, 0⟩) (fun _ ↦ 0) =
      some (clearInit heap₃) := by
    simp only [FileSystem.fsInit, FileSystem.boot, h₁, h₂, h₃, Option.bind_eq_bind,
      Option.bind_some, if_neg hall]
    rfl
  exact congrArg (Option.map fun s ↦ ((⟨0, none⟩ : FileResult), s)) hinit

/-- The block list after `fs_init` on the small machine. -/
def filesHeap : BlockHeap :=
  (((smallHeap.malloc bitmapSize).2.malloc bitmapSize).2.malloc (sizeofInode * fsMaxInodes)).2

/-- Where the first write of 9 bytes puts its data. -/
def dataAddr : ℕ := 0xffff800000236060

/-- The block of the first write has 16 bytes. -/
theorem filesHeap_malloc : (filesHeap.malloc 10).1 = dataAddr ∧
    ∀ b ∈ (filesHeap.malloc 10).2.used, b.payload = dataAddr → b.size = 16 := by
  decide +kernel

/-- `fs_init` on the small machine. -/
theorem filesHeap_init : ∃ heap, HoldsHeap heap filesHeap ∧ FileStep kernelHeap
    (FileSystem.boot (initPage smallMap .zeroed).2) (initCall, ⟨0, none⟩) (clearInit heap) := by
  obtain ⟨heap₁, h₁, hheld₁⟩ := holdsHeap_smallHeap.exists_malloc bitmapSize
  obtain ⟨heap₂, h₂, hheld₂⟩ := hheld₁.exists_malloc bitmapSize
  obtain ⟨heap₃, h₃, hheld₃⟩ := hheld₂.exists_malloc (sizeofInode * fsMaxInodes)
  rw [← kernelHeap_malloc] at h₁ h₂ h₃
  refine ⟨heap₃, hheld₃, clearInit_step h₁ h₂ h₃ ?_⟩
  decide +kernel

theorem zero_notMem_a : 0 ∉ fileName "a" := by decide

/-- The calls that create a file, open it and write 9 bytes. -/
def shortWrite (bytes : ℕ → UInt8) : List (FileCall × FileResult) :=
  [(initCall, ⟨0, none⟩), (.createFile (some ⟨fileName "a", zero_notMem_a⟩), ⟨1, none⟩),
    (.open (some ⟨fileName "a", zero_notMem_a⟩) 3, ⟨1, none⟩),
    (.write 1 (some bytes) 9, ⟨9, some bytes⟩)]

/-- Before the write, slot 0 is open on inode 1, which has no data. -/
theorem createOpen_run (heap : MemoryState) : ∃ s,
    Run (Guarded FileSystem.WriteGuard (FileStep kernelHeap)) (clearInit heap)
      [(.createFile (some ⟨fileName "a", by decide⟩), ⟨1, none⟩),
        (.open (some ⟨fileName "a", by decide⟩) 3, ⟨1, none⟩)] s ∧ s.heap = heap ∧
      (s.findFile fun f ↦ f.fd = 1 ∧ f.inodeId < fsMaxInodes) = some 0 ∧
      (s.openFiles 0).inodeId = 1 ∧ ∃ table, s.inodeTable = some table ∧ (table 1).data = 0 :=
  ⟨_, Run.cons ⟨trivial, rfl⟩ (Run.single ⟨trivial, rfl⟩), rfl, rfl, rfl, _, rfl, rfl⟩

/-- A first write of 9 bytes puts the data of the file in a block of 16 bytes. -/
theorem write_nine {s : FileSystem MemoryState} (hheld : HoldsHeap s.heap filesHeap)
    {slot : FileSlot} {table : ℕ → Inode}
    (hfind : (s.findFile fun f ↦ f.fd = 1 ∧ f.inodeId < fsMaxInodes) = some slot)
    (htable : s.inodeTable = some table) (hdata : (table (s.openFiles slot).inodeId).data = 0)
    (bytes : ℕ → UInt8) :
    ∃ heap, HoldsHeap heap (filesHeap.malloc 10).2 ∧ dataAddr ∈ heap.inUse 10 ∧
      FileStep kernelHeap s (.write 1 (some bytes) 9, ⟨9, some bytes⟩)
        (FileSystem.stored kernelHeap s slot table dataAddr heap 9 bytes) := by
  obtain ⟨heap, hmalloc, hheap⟩ := hheld.exists_malloc 10
  have hblock : s.dataBlock kernelHeap (table (s.openFiles slot).inodeId) 9 =
      some (dataAddr, heap) := by
    rw [FileSystem.dataBlock, if_neg (not_not.2 hdata), kernelHeap_malloc, ← filesHeap_malloc.1]
    exact hmalloc
  have hmem : dataAddr ∈ heap.inUse 10 := by
    rw [filesHeap_malloc.1] at hmalloc
    exact hheld.mem_inUse_malloc hmalloc (by decide)
  exact ⟨heap, hheap, hmem,
    FileSystem.fsWrite_stores bytes hfind htable hblock (by decide) (by decide)⟩

/-- The calls up to a first write of 9 bytes. -/
theorem shortWrite_run (bytes : ℕ → UInt8) : ∃ s,
    Run (Guarded FileSystem.WriteGuard (FileStep kernelHeap))
      (FileSystem.boot (initPage smallMap .zeroed).2) (shortWrite bytes) s ∧
    HoldsHeap s.heap (filesHeap.malloc 10).2 ∧
    (s.findFile fun f ↦ f.fd = 1 ∧ f.inodeId < fsMaxInodes) = some 0 ∧
    (∃ table, s.inodeTable = some table ∧ (table (s.openFiles 0).inodeId).data = dataAddr ∧
      (table (s.openFiles 0).inodeId).size = 9) ∧
    ∀ k < 9, s.heap.mem (dataAddr + k) = bytes k := by
  obtain ⟨heap₃, hheld₃, hinit⟩ := filesHeap_init
  obtain ⟨s, hrun, rfl, hfind, hinode, table, htable, hdata⟩ := createOpen_run heap₃
  rw [← hinode] at hdata
  obtain ⟨heap, hheld, hmem, hwrite⟩ := write_nine hheld₃ hfind htable hdata bytes
  have hfits : s.WriteFits 1 9 := by
    intro inode heq
    rw [FileSystem.writeInode, hfind, htable] at heq
    exact Or.inl (Option.some.inj heq ▸ hdata)
  refine ⟨_, Run.cons ⟨trivial, hinit⟩ (hrun.append (Run.single ⟨⟨by decide, hfits⟩, hwrite⟩)),
    FileSystem.holdsHeap_storeText hheld hmem bytes, ?_, ⟨_, rfl, ?_, ?_⟩, fun k hk ↦ ?_⟩
  · rw [FileSystem.stored_findFile, hfind]
  · simp [FileSystem.stored]
  · simp [FileSystem.stored]
  · show storeText heap.mem dataAddr 9 bytes (dataAddr + k) = bytes k
    rw [storeText, if_pos (by omega), Nat.add_sub_cancel_left]

/-- The general theorem after a first write. -/
theorem writes_inside_shortWrite : ∃ s,
    Run (Guarded FileSystem.WriteGuard (FileStep kernelHeap))
      (FileSystem.boot (initPage smallMap .zeroed).2) (shortWrite fun _ ↦ 65) s ∧
    (s.StaysInside 1 5 ↔ s.WriteFits 1 5) := by
  obtain ⟨s, hrun, -⟩ := shortWrite_run fun _ ↦ 65
  exact ⟨s, hrun, writes_inside_iff holdsHeap_smallHeap hrun (by decide) 1⟩

/-- **A longer write leaves the block.** After 9 bytes were written to a file, a write of 100 bytes
returns 100, and stores past the end of the block of the file. -/
theorem long_write_leaves_block : ∃ s r t,
    Run (FileStep kernelHeap) (FileSystem.boot (initPage smallMap .zeroed).2)
      (shortWrite fun _ ↦ 65) s ∧
    FileStep kernelHeap s (.write 1 (some fun _ ↦ 66) 100, r) t ∧ r.ret = 100 ∧
    ¬s.StaysInside 1 100 := by
  obtain ⟨s, hrun, hheld, hfind, ⟨table, htable, hdata, -⟩, -⟩ := shortWrite_run fun _ ↦ 65
  have hblock : s.dataBlock kernelHeap (table (s.openFiles 0).inodeId) 100 =
      some (dataAddr, s.heap) := by
    rw [FileSystem.dataBlock, hdata, if_pos (by decide)]
  have hwrite := FileSystem.fsWrite_stores (fun _ ↦ 66) hfind htable
    hblock (by decide) (by decide)
  refine ⟨s, _, _, hrun.of_guarded, hwrite, rfl, fun hinside ↦ ?_⟩
  have hinode : s.writeInode 1 = some (table (s.openFiles 0).inodeId) := by
    rw [FileSystem.writeInode, hfind, htable]
    rfl
  have hfits := (FileSystem.staysInside_iff hheld (by decide)).1 hinside _ hinode
  rw [hdata] at hfits
  obtain ⟨b, hb, hpayload, hle⟩ := hheld.represents.mem_inUse.1 (hfits.resolve_left (by decide))
  rw [filesHeap_malloc.2 b hb hpayload] at hle
  omega

end LightNight
