import LightNightOS.Foundation.ByteMemory
import LightNightOS.Foundation.Runs
import LightNightOS.Memory.Layout
import Mathlib.Data.List.FinRange

/-!
# The file system calls of `fs/fs.c`

The inode table, the table of open files and the superblock counters, with the functions of `fs.c`
over them. The data of a file is a block of the kernel's heap, which is a parameter here
(`DataHeap`): the file system calls `malloc` and copies to and from the memory, and never frees. The
inode table and the bitmaps are kept apart from the heap that `fs_init` takes them from, so that no
write reaches them; `KernelFiles` has them on it, and as long as every write fits the block of its
file the two are the same (`kernelFiles_refines`).

A pointer that is `NULL` is `none`, and so is the inode table before `fs_init` has allocated it. A
call is `none` where `malloc` does not return, and where the code would follow the `NULL` of a table
that could not be allocated. The buffer of a call is modelled by what is in it before and after.

`fs_alloc_block` and `fs_free_block`, which none of these calls, are in `FileSystem.Blocks`. The
messages the code prints change no variable.

* `fsOpen`, `fsClose`, `fsRead`, `fsWrite`, `fsSeek`, `fsGetFileSize` — the calls on descriptors,
  each with its own search of the table, as in the source;
* `fsCreateFile`, `fsCreateDir` — the two creates, which differ in what they set in the inode;
* `FileSystem.call` — all of them as one step, which is what runs are made of.
-/

namespace LightNight

open Transition

/-! ### Constants -/

/-- `FS_MAX_INODES` -/
def fsMaxInodes : ℕ := 2048

/-- `FS_MAX_OPEN_FILES` -/
abbrev fsMaxOpenFiles : ℕ := 128

/-- `sizeof(inode_t)` -/
def sizeofInode : ℕ := 104

/-- The size of a bitmap, `FS_BLOCK_SIZE`. -/
def bitmapSize : ℕ := 4096

/-- `0xFFFFFFFF`, which stands for no inode. -/
def noInode : ℕ := 0xFFFFFFFF

/-- `(int32_t)n` -/
def i32 (n : ℕ) : ℤ := if u32 n < 2 ^ 31 then u32 n else (u32 n : ℤ) - 2 ^ 32

/-! ### Data -/

/-- `inode_t`, as far as `fs.c` uses it; `data` is an address, 0 for `NULL`. -/
structure Inode where
  inodeId : ℕ
  type : ℕ
  size : ℕ
  permissions : ℕ
  ownerId : ℕ
  linkCount : ℕ
  blockCount : ℕ
  data : ℕ
  deriving DecidableEq, Repr

/-- `file_descriptor_t` -/
structure FileDescriptor where
  fd : ℕ
  inodeId : ℕ
  offset : ℕ
  mode : ℕ
  refCount : ℕ
  deriving DecidableEq, Repr

/-- The index of a slot of `open_files`. -/
abbrev FileSlot := Fin fsMaxOpenFiles

/-- A zero-terminated string, by its characters. -/
abbrev FileName := {chars : List UInt8 // 0 ∉ chars}

/-- The heap that holds the data of the files: `malloc`, and the memory behind it. -/
structure DataHeap (σ : Type*) where
  malloc : σ → ℕ → Option (ℕ × σ)
  mem : σ → ByteMemory
  setMem : σ → ByteMemory → σ

/-- The static variables of `fs.c`, and the heap. Of the superblock only the counters change. -/
structure FileSystem (σ : Type*) where
  freeBlocks : ℕ
  freeInodes : ℕ
  inodeTable : Option (ℕ → Inode)
  blockBitmap : Option (ℕ → UInt8)
  inodeBitmap : Option (ℕ → UInt8)
  openFiles : FileSlot → FileDescriptor
  nextFd : ℕ
  lastCreatedInode : ℕ
  heap : σ

/-- What a call returns: the return value, and what is in the caller's buffer, if there is one. -/
structure FileResult where
  ret : ℤ
  buffer : Option (ℕ → UInt8)

/-- `memcpy(bytes, p, size); p[size] = '\0'` -/
def storeText (m : ByteMemory) (p size : ℕ) (bytes : ℕ → UInt8) : ByteMemory := fun x ↦
  if p ≤ x ∧ x < p + size then bytes (x - p) else if x = p + size then 0 else m x

/-- `memcpy(p, buffer, size)` -/
def loadText (m : ByteMemory) (p size : ℕ) (buffer : ℕ → UInt8) : ℕ → UInt8 := fun i ↦
  if i < size then m (p + i) else buffer i

/-- `str_compare` -/
def strCompare : List UInt8 → List UInt8 → Bool
  | a :: as, b :: bs => if a ≠ b then false else strCompare as bs
  | [], [] => true
  | _, _ => false

/-- `str_compare` compares the whole strings. -/
theorem strCompare_iff {a b : List UInt8} : strCompare a b = true ↔ a = b := by
  induction a generalizing b with
  | nil => cases b <;> simp [strCompare]
  | cons x a ih =>
    cases b with
    | nil => simp [strCompare]
    | cons y b =>
      rw [strCompare, List.cons.injEq]
      by_cases hxy : x = y
      · rw [if_neg (not_not.2 hxy), ih]
        exact ⟨fun h ↦ ⟨hxy, h⟩, fun h ↦ h.2⟩
      · rw [if_pos hxy]
        exact iff_of_false Bool.false_ne_true fun h ↦ hxy h.1

/-- A string constant. -/
def fileName (s : String) : List UInt8 := s.toList.map fun c ↦ UInt8.ofNat c.toNat

namespace FileSystem

variable {σ : Type*} (ops : DataHeap σ) (s : FileSystem σ)

/-- `open_files[i] = f` -/
def setFile (i : FileSlot) (f : FileDescriptor) : FileSystem σ :=
  { s with openFiles := Function.update s.openFiles i f }

/-- The first slot that passes a test. -/
def findFile (p : FileDescriptor → Bool) : Option FileSlot :=
  (List.finRange fsMaxOpenFiles).find? fun i ↦ p (s.openFiles i)

/-! ### Initialisation -/

/-- The static variables at boot. -/
def boot (heap : σ) : FileSystem σ where
  freeBlocks := 0
  freeInodes := 0
  inodeTable := none
  blockBitmap := none
  inodeBitmap := none
  openFiles := fun _ ↦ ⟨0, 0, 0, 0, 0⟩
  nextFd := 1
  lastCreatedInode := noInode
  heap := heap

/-- The inode table as `fs_init` leaves it, in memory that holds `fresh`. -/
def initInodes (fresh : ℕ → Inode) : ℕ → Inode := fun i ↦
  let inode := { fresh i with inodeId := 0, type := 0, size := 0, data := 0 }
  if i = 0 then { inode with type := 2, permissions := 0o755, ownerId := 0, linkCount := 1 }
  else inode

/-- `fs_init`. The memory that `malloc` returns for the inode table holds `fresh`, for the bitmaps
`bytes`; if one of the three is `NULL` the function returns early. -/
def fsInit (fresh : ℕ → Inode) (bytes : ℕ → UInt8) : Option (FileSystem σ) := do
  let (block, heap) ← ops.malloc s.heap bitmapSize
  let (inode, heap) ← ops.malloc heap bitmapSize
  let (table, heap) ← ops.malloc heap (sizeofInode * fsMaxInodes)
  let s := { s with
    freeBlocks := 10240
    freeInodes := fsMaxInodes
    inodeTable := if table = 0 then none else some fresh
    blockBitmap := if block = 0 then none else some bytes
    inodeBitmap := if inode = 0 then none else some bytes
    heap := heap }
  if block = 0 ∨ inode = 0 ∨ table = 0 then some s
  else
    some { s with
      blockBitmap := some fun i ↦ if i < bitmapSize then 0 else bytes i
      inodeBitmap := some fun i ↦ if i < bitmapSize then 0 else bytes i
      inodeTable := some (initInodes fresh)
      openFiles := fun i ↦ { s.openFiles i with fd := 0, inodeId := 0, refCount := 0 } }

/-! ### Creating -/

/-- `fs_alloc_inode`: the inode, and the table. -/
def allocInode (table : ℕ → Inode) : Option (ℕ × (ℕ → Inode)) :=
  ((List.range' 1 (fsMaxInodes - 1)).find? fun i ↦ (table i).inodeId = 0).map fun i ↦
    (i, Function.update table i { table i with inodeId := i })

/-- `fs_create_file` and `fs_create_dir`, up to what they set in the inode. -/
def createInode (filename : Option FileName) (fill : Inode → Inode) :
    Option (FileResult × FileSystem σ) :=
  match filename, s.inodeTable with
  | none, _ => some (⟨-1, none⟩, s)
  | some _, none => none
  | some _, some table =>
    match allocInode table with
    | none => some (⟨-1, none⟩, s)
    | some (i, table) =>
      some (⟨i32 i, none⟩, { s with
        freeInodes := u32 (s.freeInodes + 0xFFFFFFFF)
        inodeTable := some (Function.update table i (fill (table i)))
        lastCreatedInode := i })

/-- `fs_create_file` -/
def fsCreateFile (filename : Option FileName) : Option (FileResult × FileSystem σ) :=
  s.createInode filename fun inode ↦
    { inode with
      type := 1
      size := 0
      permissions := 0o644
      ownerId := 0
      linkCount := 1
      blockCount := 0
      data := 0 }

/-- `fs_create_dir` -/
def fsCreateDir (dirname : Option FileName) : Option (FileResult × FileSystem σ) :=
  s.createInode dirname fun inode ↦
    { inode with
      type := 2
      size := 0
      permissions := 0o755
      ownerId := 0
      linkCount := 2
      data := 0 }

/-- `fs_delete_file` and `fs_list_dir` only look whether there is a name. -/
def fsDeleteFile (filename : Option FileName) : FileResult :=
  ⟨if filename.isNone then -1 else 0, none⟩

/-! ### Opening and closing -/

/-- The inode `fs_open` looks up for a name. -/
def lookup (filename : FileName) : ℕ :=
  if strCompare filename.1 (fileName "test.txt") then 1
  else if strCompare filename.1 (fileName "mydir") then 2
  else if s.lastCreatedInode = noInode then 1
  else s.lastCreatedInode

/-- `fs_open` -/
def fsOpen (filename : Option FileName) (mode : ℕ) : FileResult × FileSystem σ :=
  match filename with
  | none => (⟨-1, none⟩, s)
  | some filename =>
    match s.findFile fun f ↦ f.refCount = 0 with
    | none => (⟨-1, none⟩, s)
    | some i =>
      let f : FileDescriptor :=
        { fd := s.nextFd, inodeId := s.lookup filename, offset := 0, mode := mode, refCount := 1 }
      (⟨i32 s.nextFd, none⟩, { s.setFile i f with nextFd := u32 (s.nextFd + 1) })

/-- `fs_close` -/
def fsClose (fd : ℕ) : FileResult × FileSystem σ :=
  match s.findFile fun f ↦ f.fd = fd with
  | none => (⟨-1, none⟩, s)
  | some i =>
    let f := { s.openFiles i with refCount := u32 ((s.openFiles i).refCount + 0xFFFFFFFF) }
    (⟨0, none⟩, s.setFile i (if f.refCount = 0 then { f with fd := 0, inodeId := 0 } else f))

/-! ### Reading and writing -/

/-- Where the data of an inode is written: where it is, or else in a new block. -/
def dataBlock (inode : Inode) (size : ℕ) : Option (ℕ × σ) :=
  if inode.data ≠ 0 then some (inode.data, s.heap) else ops.malloc s.heap (u32 (size + 1))

/-- `fs_write` -/
def fsWrite (fd : ℕ) (buffer : Option (ℕ → UInt8)) (size : ℕ) :
    Option (FileResult × FileSystem σ) :=
  match buffer with
  | none => some (⟨-1, none⟩, s)
  | some bytes =>
    if size = 0 then some (⟨-1, some bytes⟩, s)
    else
      match s.findFile fun f ↦ f.fd = fd ∧ f.inodeId < fsMaxInodes with
      | none => some (⟨-1, some bytes⟩, s)
      | some i =>
        let f := s.openFiles i
        match s.inodeTable with
        | none => none
        | some table =>
          match s.dataBlock ops (table f.inodeId) size with
          | none => none
          | some (p, heap) =>
            if p = 0 then some (⟨-1, some bytes⟩, { s with heap := heap })
            else
              let s := s.setFile i { f with offset := u32 (f.offset + size) }
              some (⟨i32 size, some bytes⟩, { s with
                inodeTable := some (Function.update table f.inodeId
                  { table f.inodeId with data := p, size := size })
                heap := ops.setMem heap (storeText (ops.mem heap) p size bytes) })

/-- `fs_read` -/
def fsRead (fd : ℕ) (buffer : Option (ℕ → UInt8)) (size : ℕ) :
    Option (FileResult × FileSystem σ) :=
  match buffer with
  | none => some (⟨-1, none⟩, s)
  | some bytes =>
    if size = 0 then some (⟨-1, some bytes⟩, s)
    else
      match s.findFile fun f ↦ f.fd = fd with
      | none => some (⟨-1, some bytes⟩, s)
      | some i =>
        let f := s.openFiles i
        if f.inodeId < fsMaxInodes then
          match s.inodeTable with
          | none => none
          | some table =>
            let inode := table f.inodeId
            let readSize := if size < inode.size then size else inode.size
            let bytes := if inode.data ≠ 0 ∧ 0 < readSize then
              loadText (ops.mem s.heap) inode.data readSize bytes else bytes
            some (⟨i32 readSize, some bytes⟩,
              s.setFile i { f with offset := u32 (f.offset + readSize) })
        else some (⟨0, some bytes⟩, s)

/-- `fs_seek` -/
def fsSeek (fd offset : ℕ) : FileResult × FileSystem σ :=
  match s.findFile fun f ↦ f.fd = fd with
  | none => (⟨-1, none⟩, s)
  | some i => (⟨0, none⟩, s.setFile i { s.openFiles i with offset := offset })

/-- `fs_get_file_size` -/
def fsGetFileSize (fd : ℕ) : Option FileResult :=
  match s.findFile fun f ↦ f.fd = fd ∧ f.inodeId < fsMaxInodes with
  | none => some ⟨0, none⟩
  | some i => s.inodeTable.map fun table ↦ ⟨(table (s.openFiles i).inodeId).size, none⟩

end FileSystem

/-! ### Calls -/

/-- The calls of the file system. -/
inductive FileCall
  | init (fresh : ℕ → Inode) (bytes : ℕ → UInt8)
  | createFile (filename : Option FileName)
  | createDir (dirname : Option FileName)
  | deleteFile (filename : Option FileName)
  | listDir (dirname : Option FileName)
  | open (filename : Option FileName) (mode : ℕ)
  | close (fd : ℕ)
  | read (fd : ℕ) (buffer : Option (ℕ → UInt8)) (size : ℕ)
  | write (fd : ℕ) (buffer : Option (ℕ → UInt8)) (size : ℕ)
  | seek (fd offset : ℕ)
  | getFileSize (fd : ℕ)

variable {σ : Type*} (ops : DataHeap σ)

/-- What a call does; a `uint32_t` argument is below `2 ^ 32`. -/
def FileSystem.call (s : FileSystem σ) : FileCall → Option (FileResult × FileSystem σ)
  | .init fresh bytes => (s.fsInit ops fresh bytes).map fun s ↦ (⟨0, none⟩, s)
  | .createFile filename => s.fsCreateFile filename
  | .createDir dirname => s.fsCreateDir dirname
  | .deleteFile filename => some (fsDeleteFile filename, s)
  | .listDir dirname => some (fsDeleteFile dirname, s)
  | .open filename mode => some (s.fsOpen filename mode)
  | .close fd => some (s.fsClose fd)
  | .read fd buffer size => s.fsRead ops fd buffer size
  | .write fd buffer size => s.fsWrite ops fd buffer size
  | .seek fd offset => some (s.fsSeek fd offset)
  | .getFileSize fd => (s.fsGetFileSize fd).map fun r ↦ (r, s)

/-- A call as a step, labelled with the call and its result. -/
def FileStep (s : FileSystem σ) (a : FileCall × FileResult) (t : FileSystem σ) : Prop :=
  s.call ops a.1 = some (a.2, t)

end LightNight
