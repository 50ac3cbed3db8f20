import LightNightOS.FileSystem.FileData
import LightNightOS.Foundation.RecordLayout

/-!
# The tables of `fs.c` on the heap

`fs_init` takes the inode table and the two bitmaps from `malloc`, like the data of the files. Here
they are where they are in the kernel: `inode_table`, `block_bitmap` and `inode_bitmap` are
pointers, and an inode is 104 bytes of memory (`inodeLayout`). So a write past the end of the data
of a file can reach a table, which it cannot in `FileSystem`.

`KernelFiles.tables` reads the tables from the memory. The calls that only look at them, and change
no more than the table of open files, are the ones of `FileSystem` on what is read; `fs_init`, the
creates and `fs_write` change bytes.

Names and results are those of `FileSystem`, and so is every check. What differs is where a value
is: `takeInode` stores the `inode_id` of a new inode and then its other fields, in the order of the
assignments, and `writeData` stores the data of a file, the zero behind it, and then the size.
-/

namespace LightNight

open BlockHeap Transition

/-! ### `inode_t` in memory -/

/-- The fields of `inode_t` that `fs.c` uses. -/
inductive InodeField
  | inodeId
  | type
  | size
  | permissions
  | ownerId
  | linkCount
  | blockCount
  | data
  deriving DecidableEq, Repr

/-- `inode_t`: after `owner_id` come three times, after `block_count` the block numbers and
padding. -/
def inodeLayout : RecordLayout InodeField where
  offset
    | .inodeId => 0
    | .type => 4
    | .size => 8
    | .permissions => 12
    | .ownerId => 16
    | .linkCount => 32
    | .blockCount => 36
    | .data => 96
  width
    | .data => 8
    | _ => 4
  size := sizeofInode
  inside f := by cases f <;> decide
  apart f g := by cases f <;> cases g <;> decide

/-- The inode at an address. -/
def inodeAt (m : ByteMemory) (a : ℕ) : Inode where
  inodeId := inodeLayout.get .inodeId m a
  type := inodeLayout.get .type m a
  size := inodeLayout.get .size m a
  permissions := inodeLayout.get .permissions m a
  ownerId := inodeLayout.get .ownerId m a
  linkCount := inodeLayout.get .linkCount m a
  blockCount := inodeLayout.get .blockCount m a
  data := inodeLayout.get .data m a

theorem inodeAt_congr {m m' : ByteMemory} {a : ℕ} (h : Set.EqOn m m' (inodeLayout.bytes a)) :
    inodeAt m a = inodeAt m' a := by
  simp only [inodeAt, inodeLayout.get_congr h]

/-! ### State -/

/-- The static variables of `fs.c`, and the heap that the tables are on. -/
structure KernelFiles where
  lastCreatedInode : ℕ
  nextFd : ℕ
  openFiles : FileSlot → FileDescriptor
  inodeTable : ℕ
  blockBitmap : ℕ
  inodeBitmap : ℕ
  freeBlocks : ℕ
  freeInodes : ℕ
  heap : MemoryState

namespace KernelFiles

variable (k : KernelFiles)

/-- `&inode_table[i]` -/
def inodeAddr (i : ℕ) : ℕ := inodeLayout.element k.inodeTable i

/-- `inode_table[i]` -/
def inode (i : ℕ) : Inode := inodeAt k.heap.mem (k.inodeAddr i)

/-- The memory is written to. -/
def setMem (m : ByteMemory) : KernelFiles := { k with heap := { k.heap with mem := m } }

/-- `open_files[i] = f` -/
def setFile (i : FileSlot) (f : FileDescriptor) : KernelFiles :=
  { k with openFiles := Function.update k.openFiles i f }

/-- What the pointers lead to. -/
def tables : FileSystem MemoryState where
  freeBlocks := k.freeBlocks
  freeInodes := k.freeInodes
  inodeTable := if k.inodeTable = 0 then none else some k.inode
  blockBitmap := if k.blockBitmap = 0 then none else some fun i ↦ k.heap.mem (k.blockBitmap + i)
  inodeBitmap := if k.inodeBitmap = 0 then none else some fun i ↦ k.heap.mem (k.inodeBitmap + i)
  openFiles := k.openFiles
  nextFd := k.nextFd
  lastCreatedInode := k.lastCreatedInode
  heap := k.heap

/-! ### Functions -/

/-- The loop of `fs_init` over the first `n` inodes of the table. -/
def clearInodes (m : ByteMemory) (table : ℕ) : ℕ → ByteMemory
  | 0 => m
  | n + 1 => inodeLayout.assign (clearInodes m table n) (inodeLayout.element table n)
      [(.inodeId, 0), (.type, 0), (.size, 0), (.data, 0)]

/-- What `fs_init` writes when it has its three blocks; the root directory comes last. -/
def initTables (m : ByteMemory) (block inode table : ℕ) : ByteMemory :=
  let m := (m.fill block bitmapSize 0).fill inode bitmapSize 0
  inodeLayout.assign (clearInodes m table fsMaxInodes) (inodeLayout.element table 0)
    [(.inodeId, 0), (.type, 2), (.size, 0), (.permissions, 0o755), (.ownerId, 0), (.linkCount, 1)]

/-- `fs_init` -/
def fsInit : Option KernelFiles := do
  let (block, heap) ← k.heap.malloc bitmapSize
  let (inode, heap) ← heap.malloc bitmapSize
  let (table, heap) ← heap.malloc (sizeofInode * fsMaxInodes)
  let k := { k with
    freeBlocks := 10240
    freeInodes := fsMaxInodes
    blockBitmap := block
    inodeBitmap := inode
    inodeTable := table
    heap := heap }
  if block = 0 ∨ inode = 0 ∨ table = 0 then some k
  else
    some { k.setMem (initTables heap.mem block inode table) with
      openFiles := fun i ↦ { k.openFiles i with fd := 0, inodeId := 0, refCount := 0 } }

/-- An inode that `fs_alloc_inode` has found is marked, and its fields are assigned. -/
def takeInode (i : ℕ) (fields : List (InodeField × ℕ)) : KernelFiles :=
  let m := inodeLayout.set .inodeId k.heap.mem (k.inodeAddr i) i
  { k.setMem (inodeLayout.assign m (k.inodeAddr i) fields) with
    freeInodes := u32 (k.freeInodes + 0xFFFFFFFF)
    lastCreatedInode := i }

@[simp] theorem takeInode_inodeTable (i : ℕ) (fields : List (InodeField × ℕ)) :
    (k.takeInode i fields).inodeTable = k.inodeTable :=
  rfl

/-- `fs_create_file` and `fs_create_dir`, up to what they assign in the inode. -/
def createInode (filename : Option FileName) (fields : List (InodeField × ℕ)) :
    Option (FileResult × KernelFiles) :=
  match filename with
  | none => some (⟨-1, none⟩, k)
  | some _ =>
    if k.inodeTable = 0 then none
    else
      match (List.range' 1 (fsMaxInodes - 1)).find? fun i ↦
        inodeLayout.get .inodeId k.heap.mem (k.inodeAddr i) = 0 with
      | none => some (⟨-1, none⟩, k)
      | some i => some (⟨i32 i, none⟩, k.takeInode i fields)

/-- What `fs_create_file` assigns. -/
def fileFields : List (InodeField × ℕ) :=
  [(.type, 1), (.size, 0), (.permissions, 0o644), (.ownerId, 0), (.linkCount, 1), (.blockCount, 0),
    (.data, 0)]

/-- What `fs_create_dir` assigns. -/
def dirFields : List (InodeField × ℕ) :=
  [(.type, 2), (.size, 0), (.permissions, 0o755), (.ownerId, 0), (.linkCount, 2), (.data, 0)]

/-- `fs_create_file` -/
def fsCreateFile (filename : Option FileName) : Option (FileResult × KernelFiles) :=
  k.createInode filename fileFields

/-- `fs_create_dir` -/
def fsCreateDir (dirname : Option FileName) : Option (FileResult × KernelFiles) :=
  k.createInode dirname dirFields

/-- `fs_write`, where `inode->data` is `NULL`: the new block goes into the inode. -/
def allocData (inode size : ℕ) : Option MemoryState :=
  if inodeLayout.get .data k.heap.mem inode ≠ 0 then some k.heap
  else (k.heap.malloc (u32 (size + 1))).map fun (p, heap) ↦
    { heap with mem := inodeLayout.set .data heap.mem inode p }

/-- `memcpy(buffer, inode->data, size); inode->data[size] = '\0'; inode->size = size`. The pointer
is read again for the zero, as the copy may have reached the inode. -/
def writeData (m : ByteMemory) (inode size : ℕ) (bytes : ℕ → UInt8) : ByteMemory :=
  let p := inodeLayout.get .data m inode
  let m : ByteMemory := fun x ↦ if p ≤ x ∧ x < p + size then bytes (x - p) else m x
  let m := m.store (inodeLayout.get .data m inode + size) 1 0
  inodeLayout.set .size m inode size

/-- `fs_write` -/
def fsWrite (fd : ℕ) (buffer : Option (ℕ → UInt8)) (size : ℕ) : Option (FileResult × KernelFiles) :=
  match buffer with
  | none => some (⟨-1, none⟩, k)
  | some bytes =>
    if size = 0 then some (⟨-1, some bytes⟩, k)
    else
      match k.tables.findFile fun f ↦ f.fd = fd ∧ f.inodeId < fsMaxInodes with
      | none => some (⟨-1, some bytes⟩, k)
      | some i =>
        let f := k.openFiles i
        let inode := k.inodeAddr f.inodeId
        if k.inodeTable = 0 then none
        else
          match k.allocData inode size with
          | none => none
          | some heap =>
            let k := { k with heap := heap }
            if inodeLayout.get .data heap.mem inode = 0 then some (⟨-1, some bytes⟩, k)
            else
              let k := k.setMem (writeData heap.mem inode size bytes)
              some (⟨i32 size, some bytes⟩, k.setFile i { f with offset := u32 (f.offset + size) })

/-- A function that changes no more than the table of open files, on what the tables hold. -/
def onFiles (u : FileResult × FileSystem MemoryState) : FileResult × KernelFiles :=
  (u.1, { k with openFiles := u.2.openFiles, nextFd := u.2.nextFd })

/-- What a call does. -/
def call : FileCall → Option (FileResult × KernelFiles)
  | .init _ _ => k.fsInit.map fun k ↦ (⟨0, none⟩, k)
  | .createFile filename => k.fsCreateFile filename
  | .createDir dirname => k.fsCreateDir dirname
  | .deleteFile filename => some (FileSystem.fsDeleteFile filename, k)
  | .listDir dirname => some (FileSystem.fsDeleteFile dirname, k)
  | .open filename mode => some (k.onFiles (k.tables.fsOpen filename mode))
  | .close fd => some (k.onFiles (k.tables.fsClose fd))
  | .read fd buffer size => (k.tables.fsRead kernelHeap fd buffer size).map k.onFiles
  | .write fd buffer size => k.fsWrite fd buffer size
  | .seek fd offset => some (k.onFiles (k.tables.fsSeek fd offset))
  | .getFileSize fd => (k.tables.fsGetFileSize fd).map fun r ↦ (r, k)

end KernelFiles

/-- A call as a step, labelled with the call and its result. -/
def KernelFileStep (k : KernelFiles) (a : FileCall × FileResult) (k' : KernelFiles) : Prop :=
  k.call a.1 = some (a.2, k')

end LightNight
