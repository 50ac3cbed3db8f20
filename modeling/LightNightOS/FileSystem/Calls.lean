import LightNightOS.FileSystem.Files

/-!
# What a file system call can do

One lemma for each function says all that the function can do: `fs_open` fills a free slot,
`fs_close` clears a slot, `fs_read` and `fs_seek` move an offset, `fs_write` stores in a block and
moves an offset, `fs_create_file` and `fs_create_dir` take a free inode, `fs_init` sets everything
up. From these `call_moves` says what the calls do to the table of open files, and `call_onlyFiles`
which calls touch nothing else.

The lemmas come in two layers. `fsOpen_cases`, `fsWrite_cases` and the like list the outcomes of one
function with everything it has set, failures included. What follows from them for all calls at once
is stated by what is left alone: `SameFiles`, `OnlyOffset` and `MovesOffset`, from the most that is
kept to the least.

* `fsOpen_cases`, `fsClose_cases`, `fsSeek_cases`, `fsRead_cases`, `fsWrite_cases`,
  `createInode_cases`, `fsInit_cases` — the outcomes of each function;
* `InitSucceeds` — what is left by an `fs_init` that has found room for its tables;
* `call_moves`, `call_onlyFiles` — all calls at once.
-/

namespace LightNight

variable {σ : Type*} {ops : DataHeap σ}

/-- The descriptor a call is given, if it may change the slot of it. -/
def FileCall.fd : FileCall → Option ℕ
  | .close fd | .read fd _ _ | .write fd _ _ | .seek fd _ => some fd
  | _ => none

/-- The calls that set up, fill or clear slots. -/
def FileCall.onTable : FileCall → Bool
  | .init _ _ | .open _ _ | .close _ => true
  | _ => false

/-- The calls that reach the inodes, or the data of files. -/
def FileCall.onInodes : FileCall → Bool
  | .init _ _ | .createFile _ | .createDir _ | .write _ _ _ => true
  | _ => false

namespace FileSystem

variable {s t : FileSystem σ} {r : FileResult} {fd : ℕ}

/-- A slot that is found is one that was looked for. -/
theorem findFile_some {p : FileDescriptor → Bool} {i : FileSlot} (h : s.findFile p = some i) :
    p (s.openFiles i) = true :=
  List.find?_some (p := fun i ↦ p (s.openFiles i)) h

theorem findFile_none {p : FileDescriptor → Bool} (h : s.findFile p = none) (i : FileSlot) :
    p (s.openFiles i) = false := by
  simpa using List.find?_eq_none.1 h i (List.mem_finRange i)

@[simp] theorem setFile_openFiles (i : FileSlot) (f : FileDescriptor) :
    (s.setFile i f).openFiles = Function.update s.openFiles i f :=
  rfl

@[simp] theorem setFile_nextFd (i : FileSlot) (f : FileDescriptor) :
    (s.setFile i f).nextFd = s.nextFd :=
  rfl

/-- The table of open files, and the next number, are the same. -/
structure SameFiles (s t : FileSystem σ) : Prop where
  openFiles : t.openFiles = s.openFiles
  nextFd : t.nextFd = s.nextFd

/-- No more than the offset in a slot that carries `fd` has changed. -/
def MovesOffset (fd : ℕ) (s t : FileSystem σ) : Prop :=
  t.nextFd = s.nextFd ∧ (t.openFiles = s.openFiles ∨ ∃ i offset, (s.openFiles i).fd = fd ∧
    t.openFiles = Function.update s.openFiles i { s.openFiles i with offset := offset })

theorem SameFiles.refl (s : FileSystem σ) : s.SameFiles s := ⟨rfl, rfl⟩

/-- A table that stays as it is has moved no offset. -/
theorem SameFiles.movesOffset (h : s.SameFiles t) (fd : ℕ) : MovesOffset fd s t :=
  ⟨h.nextFd, Or.inl h.openFiles⟩

/-- `fs_open` with a name. -/
theorem fsOpen_cases (filename : FileName) (mode : ℕ) :
    (∀ i, (s.openFiles i).refCount ≠ 0) ∧ s.fsOpen (some filename) mode = (⟨-1, none⟩, s) ∨
      ∃ i, (s.openFiles i).refCount = 0 ∧ s.fsOpen (some filename) mode = (⟨i32 s.nextFd, none⟩,
        { s.setFile i ⟨s.nextFd, s.lookup filename, 0, mode, 1⟩ with
          nextFd := u32 (s.nextFd + 1) }) := by
  rw [fsOpen]
  rcases h : s.findFile fun f ↦ f.refCount = 0 with - | i
  · exact Or.inl ⟨fun i ↦ by simpa using findFile_none h i, rfl⟩
  · exact Or.inr ⟨i, by simpa using findFile_some h, rfl⟩

/-- `fs_close` -/
theorem fsClose_cases (s : FileSystem σ) (fd : ℕ) :
    (∀ i, (s.openFiles i).fd ≠ fd) ∧ s.fsClose fd = (⟨-1, none⟩, s) ∨
      ∃ i f, (s.openFiles i).fd = fd ∧ s.fsClose fd = (⟨0, none⟩, s.setFile i f) ∧
        f.refCount = u32 ((s.openFiles i).refCount + 0xFFFFFFFF) ∧ (f.refCount = 0 → f.fd = 0) := by
  rw [fsClose]
  rcases h : s.findFile fun f ↦ f.fd = fd with - | i
  · exact Or.inl ⟨fun i ↦ by simpa using findFile_none h i, rfl⟩
  · refine Or.inr ⟨i, _, by simpa using findFile_some h, rfl, ?_, ?_⟩
    · split <;> rfl
    · split
      · exact fun _ ↦ rfl
      · exact fun hzero ↦ absurd hzero ‹_›

theorem call_eq_some {u : FileResult × FileSystem σ} (h : some u = some (r, t)) :
    r = u.1 ∧ t = u.2 :=
  have h := Prod.mk.inj (Option.some.inj h)
  ⟨h.1.symm, h.2.symm⟩

/-- No more than the offset of an open file has changed, in a slot that carries `fd`. -/
def OnlyOffset (fd : ℕ) (s t : FileSystem σ) : Prop :=
  t = s ∨ ∃ i offset, (s.openFiles i).fd = fd ∧
    t = s.setFile i { s.openFiles i with offset := offset }

/-- Where only an offset changes, only an offset has moved. -/
theorem OnlyOffset.moves (h : OnlyOffset fd s t) : MovesOffset fd s t := by
  rcases h with rfl | ⟨i, offset, hfd, rfl⟩
  exacts [⟨rfl, Or.inl rfl⟩, ⟨rfl, Or.inr ⟨i, offset, hfd, rfl⟩⟩]

/-- `fs_seek` -/
theorem fsSeek_cases (s : FileSystem σ) (fd offset : ℕ) :
    OnlyOffset fd s (s.fsSeek fd offset).2 := by
  rw [fsSeek]
  rcases h : s.findFile fun f ↦ f.fd = fd with - | i
  · exact Or.inl rfl
  · exact Or.inr ⟨i, offset, by simpa using findFile_some h, rfl⟩

/-- `fs_read` -/
theorem fsRead_cases {buffer : Option (ℕ → UInt8)} {size : ℕ}
    (h : s.fsRead ops fd buffer size = some (r, t)) : OnlyOffset fd s t := by
  rw [fsRead.eq_def] at h
  split at h
  · exact Or.inl (call_eq_some h).2
  split at h
  · exact Or.inl (call_eq_some h).2
  split at h
  · exact Or.inl (call_eq_some h).2
  case h_2 i hfind =>
    dsimp only at h
    split at h
    · split at h
      · cases h
      · exact Or.inr ⟨i, _, by simpa using findFile_some hfind, (call_eq_some h).2⟩
    · exact Or.inl (call_eq_some h).2

/-- What `fs_write` leaves when it stores `bytes` at `p` for the file in slot `i`. -/
def stored (ops : DataHeap σ) (s : FileSystem σ) (i : FileSlot) (table : ℕ → Inode) (p : ℕ)
    (heap : σ) (size : ℕ) (bytes : ℕ → UInt8) : FileSystem σ :=
  { s.setFile i { s.openFiles i with offset := u32 ((s.openFiles i).offset + size) } with
    inodeTable := some (Function.update table (s.openFiles i).inodeId
      { table (s.openFiles i).inodeId with data := p, size := size })
    heap := ops.setMem heap (storeText (ops.mem heap) p size bytes) }

/-- `fs_write` returns -1 with no more than a failed `malloc`, or stores. -/
theorem fsWrite_cases {buffer : Option (ℕ → UInt8)} {size : ℕ}
    (h : s.fsWrite ops fd buffer size = some (r, t)) :
    (r.ret = -1 ∧ (t = s ∨ ∃ i table heap, s.inodeTable = some table ∧
      s.dataBlock ops (table (s.openFiles i).inodeId) size = some (0, heap) ∧
      t = { s with heap := heap })) ∨
    ∃ i table p heap bytes, (s.findFile fun f ↦ f.fd = fd ∧ f.inodeId < fsMaxInodes) = some i ∧
      s.inodeTable = some table ∧
      s.dataBlock ops (table (s.openFiles i).inodeId) size = some (p, heap) ∧ p ≠ 0 ∧
      buffer = some bytes ∧ size ≠ 0 ∧ r.ret = i32 size ∧
      t = stored ops s i table p heap size bytes := by
  rw [fsWrite.eq_def] at h
  split at h
  · obtain ⟨rfl, rfl⟩ := call_eq_some h
    exact Or.inl ⟨rfl, Or.inl rfl⟩
  split at h
  · obtain ⟨rfl, rfl⟩ := call_eq_some h
    exact Or.inl ⟨rfl, Or.inl rfl⟩
  split at h
  · obtain ⟨rfl, rfl⟩ := call_eq_some h
    exact Or.inl ⟨rfl, Or.inl rfl⟩
  case h_2 bytes hsize _ i hfind =>
    dsimp only at h
    split at h
    · cases h
    case h_2 table htable =>
      split at h
      · cases h
      case h_2 p heap hblock =>
        split at h <;> obtain ⟨rfl, rfl⟩ := call_eq_some h
        case isTrue hp =>
          rw [hp] at hblock
          exact Or.inl ⟨rfl, Or.inr ⟨i, table, heap, htable, hblock, rfl⟩⟩
        case isFalse hp =>
          exact Or.inr ⟨i, table, p, heap, bytes, hfind, htable, hblock, hp, rfl, hsize, rfl, rfl⟩

/-- `fs_write` stores, when there is a block to store in. -/
theorem fsWrite_stores {i : FileSlot} {table : ℕ → Inode} {p size : ℕ} {heap : σ}
    (bytes : ℕ → UInt8) (hfind : (s.findFile fun f ↦ f.fd = fd ∧ f.inodeId < fsMaxInodes) = some i)
    (htable : s.inodeTable = some table)
    (hblock : s.dataBlock ops (table (s.openFiles i).inodeId) size = some (p, heap)) (hp : p ≠ 0)
    (hsize : size ≠ 0) : s.fsWrite ops fd (some bytes) size =
      some (⟨i32 size, some bytes⟩, stored ops s i table p heap size bytes) := by
  rw [fsWrite.eq_def]
  simp only [if_neg hsize, hfind, htable, hblock, if_neg hp]
  rfl

/-- `fs_write`, when `malloc` returns `NULL` for the block. -/
theorem fsWrite_null {i : FileSlot} {table : ℕ → Inode} {size : ℕ} {heap : σ} (bytes : ℕ → UInt8)
    (hfind : (s.findFile fun f ↦ f.fd = fd ∧ f.inodeId < fsMaxInodes) = some i)
    (htable : s.inodeTable = some table)
    (hblock : s.dataBlock ops (table (s.openFiles i).inodeId) size = some (0, heap))
    (hsize : size ≠ 0) :
    s.fsWrite ops fd (some bytes) size = some (⟨-1, some bytes⟩, { s with heap := heap }) := by
  rw [fsWrite.eq_def]
  simp only [if_neg hsize, hfind, htable, hblock, if_pos]

/-- A write moves the offset of its descriptor, whatever it does to the inode. -/
theorem fsWrite_moves {buffer : Option (ℕ → UInt8)} {size : ℕ}
    (h : s.fsWrite ops fd buffer size = some (r, t)) : MovesOffset fd s t := by
  rcases fsWrite_cases h with
    ⟨-, rfl | ⟨_, _, _, -, -, rfl⟩⟩ | ⟨i, table, p, heap, bytes, hfind, -, -, -, -, -, -, rfl⟩
  · exact ⟨rfl, Or.inl rfl⟩
  · exact ⟨rfl, Or.inl rfl⟩
  · have hfd : (s.openFiles i).fd = fd ∧ (s.openFiles i).inodeId < fsMaxInodes := by
      simpa using findFile_some hfind
    exact ⟨rfl, Or.inr ⟨i, _, hfd.1, rfl⟩⟩

/-- `fs_create_file` and `fs_create_dir` fail, or take an inode that is free. -/
theorem createInode_cases {filename : Option FileName} {fill : Inode → Inode}
    (h : s.createInode filename fill = some (r, t)) : r.ret = -1 ∧ t = s ∨
      ∃ table i, s.inodeTable = some table ∧ 0 < i ∧ i < fsMaxInodes ∧ (table i).inodeId = 0 ∧
        r.ret = i ∧ t = { s with
          freeInodes := u32 (s.freeInodes + 0xFFFFFFFF)
          inodeTable := some (Function.update table i (fill { table i with inodeId := i }))
          lastCreatedInode := i } := by
  rw [createInode.eq_def] at h
  split at h
  · obtain ⟨rfl, rfl⟩ := call_eq_some h
    exact Or.inl ⟨rfl, rfl⟩
  · cases h
  case h_3 table htable =>
    split at h <;> obtain ⟨rfl, rfl⟩ := call_eq_some h
    · exact Or.inl ⟨rfl, rfl⟩
    case h_2 i _ halloc =>
      obtain ⟨j, hj, heq⟩ := Option.map_eq_some_iff.1 halloc
      obtain ⟨rfl, rfl⟩ := Prod.mk.inj heq
      have hmem := List.mem_range'_1.1 (List.mem_of_find?_eq_some hj)
      have hfree : (table j).inodeId = 0 := by simpa using List.find?_some hj
      have hlt : j < fsMaxInodes := by
        rw [fsMaxInodes] at hmem ⊢
        omega
      refine Or.inr ⟨table, j, htable, hmem.1, hlt, hfree, ?_, ?_⟩
      · rw [fsMaxInodes] at hlt
        change i32 j = j
        rw [i32, u32_of_lt (by omega), if_pos (by omega)]
      · simp

theorem createInode_same {filename : Option FileName} {fill : Inode → Inode}
    (h : s.createInode filename fill = some (r, t)) : s.SameFiles t := by
  rcases createInode_cases h with ⟨-, rfl⟩ | ⟨_, _, -, -, -, -, -, rfl⟩
  exacts [.refl _, ⟨rfl, rfl⟩]

/-- `fs_init` calls `malloc` three times. It fails, or sets up the tables. -/
theorem fsInit_cases {fresh : ℕ → Inode} {bytes : ℕ → UInt8}
    (h : s.fsInit ops fresh bytes = some t) :
    ∃ block heap₁ inode heap₂ table heap, ops.malloc s.heap bitmapSize = some (block, heap₁) ∧
      ops.malloc heap₁ bitmapSize = some (inode, heap₂) ∧
      ops.malloc heap₂ (sizeofInode * fsMaxInodes) = some (table, heap) ∧
      t.heap = heap ∧ t.nextFd = s.nextFd ∧ t.lastCreatedInode = s.lastCreatedInode ∧
      if block = 0 ∨ inode = 0 ∨ table = 0 then t.openFiles = s.openFiles
      else t.inodeTable = some (initInodes fresh) ∧
        t.openFiles = fun i ↦ { s.openFiles i with fd := 0, inodeId := 0, refCount := 0 } := by
  rw [fsInit] at h
  simp only [Option.bind_eq_bind, Option.bind_eq_some_iff] at h
  obtain ⟨⟨block, heap₁⟩, h₁, ⟨inode, heap₂⟩, h₂, ⟨table, heap⟩, h₃, h⟩ := h
  refine ⟨block, heap₁, inode, heap₂, table, heap, h₁, h₂, h₃, ?_⟩
  dsimp only at h
  split at h <;> obtain rfl := Option.some.inj h
  case isTrue hfail => exact ⟨rfl, rfl, rfl, by rw [if_pos hfail]⟩
  case isFalse hall => exact ⟨rfl, rfl, rfl, by rw [if_neg hall]; exact ⟨rfl, rfl⟩⟩

/-- What `fs_init` leaves when it has its three blocks. -/
theorem fsInit_eq {heap₁ heap₂ heap₃ : σ} {block inode table : ℕ} (fresh : ℕ → Inode)
    (bytes : ℕ → UInt8) (h₁ : ops.malloc s.heap bitmapSize = some (block, heap₁))
    (h₂ : ops.malloc heap₁ bitmapSize = some (inode, heap₂))
    (h₃ : ops.malloc heap₂ (sizeofInode * fsMaxInodes) = some (table, heap₃))
    (hall : ¬(block = 0 ∨ inode = 0 ∨ table = 0)) : s.fsInit ops fresh bytes =
      some { s with
        freeBlocks := 10240
        freeInodes := fsMaxInodes
        inodeTable := some (initInodes fresh)
        blockBitmap := some fun i ↦ if i < bitmapSize then 0 else bytes i
        inodeBitmap := some fun i ↦ if i < bitmapSize then 0 else bytes i
        openFiles := fun i ↦ { s.openFiles i with fd := 0, inodeId := 0, refCount := 0 }
        heap := heap₃ } := by
  simp only [fsInit, h₁, h₂, h₃, Option.bind_eq_bind, Option.bind_some, if_neg hall]

/-- `fs_init` empties the table, or leaves it alone when it fails. -/
theorem fsInit_files {fresh : ℕ → Inode} {bytes : ℕ → UInt8}
    (h : s.fsInit ops fresh bytes = some t) :
    t.nextFd = s.nextFd ∧ (t.openFiles = s.openFiles ∨
      t.openFiles = fun i ↦ { s.openFiles i with fd := 0, inodeId := 0, refCount := 0 }) := by
  obtain ⟨_, _, _, _, _, _, -, -, -, -, hfd, -, hfiles⟩ := fsInit_cases h
  refine ⟨hfd, ?_⟩
  split at hfiles
  exacts [Or.inl hfiles, Or.inr hfiles.2]

/-- `fs_init` succeeds: after it, the two bitmaps and the inode table are not `NULL`. -/
structure InitSucceeds (ops : DataHeap σ) (s : FileSystem σ) (fresh : ℕ → Inode) (bytes : ℕ → UInt8)
    (t : FileSystem σ) : Prop where
  init : s.fsInit ops fresh bytes = some t
  blockBitmap : t.blockBitmap ≠ none
  inodeBitmap : t.inodeBitmap ≠ none
  inodeTable : t.inodeTable ≠ none

/-- What a successful `fs_init` leaves. -/
theorem InitSucceeds.tables {fresh : ℕ → Inode} {bytes : ℕ → UInt8}
    (h : InitSucceeds ops s fresh bytes t) : t.freeBlocks = 10240 ∧ t.freeInodes = fsMaxInodes ∧
      t.inodeTable = some (initInodes fresh) ∧
      t.blockBitmap = some (fun i ↦ if i < bitmapSize then 0 else bytes i) ∧
      t.inodeBitmap = some (fun i ↦ if i < bitmapSize then 0 else bytes i) := by
  obtain ⟨hinit, hblock, hinode, htable⟩ := h
  rw [fsInit] at hinit
  simp only [Option.bind_eq_bind, Option.bind_eq_some_iff] at hinit
  obtain ⟨⟨block, heap₁⟩, -, ⟨inode, heap₂⟩, -, ⟨table, heap⟩, -, hinit⟩ := hinit
  dsimp only at hinit
  split at hinit <;> obtain rfl := Option.some.inj hinit
  case isTrue hfail =>
    -- one of the three pointers is the `NULL` that the early return leaves
    rcases hfail with hzero | hzero | hzero
    · exact absurd (if_pos hzero) hblock
    · exact absurd (if_pos hzero) hinode
    · exact absurd (if_pos hzero) htable
  case isFalse => exact ⟨rfl, rfl, rfl, rfl, rfl⟩

/-- **The other calls** move an offset at most, in a slot that carries their descriptor. -/
theorem call_moves {a : FileCall} (hcall : s.call ops a = some (r, t)) (ha : a.onTable = false) :
    s.SameFiles t ∨ ∃ fd, a.fd = some fd ∧ MovesOffset fd s t := by
  cases a with
  | init _ _ | «open» _ _ | close _ => exact Bool.noConfusion ha
  | createFile filename =>
    have hcreate : s.fsCreateFile filename = some (r, t) := hcall
    exact Or.inl (createInode_same hcreate)
  | createDir dirname =>
    have hcreate : s.fsCreateDir dirname = some (r, t) := hcall
    exact Or.inl (createInode_same hcreate)
  | deleteFile _ | listDir _ => exact Or.inl ((call_eq_some hcall).2 ▸ .refl s)
  | read fd buffer size => exact Or.inr ⟨fd, rfl, (fsRead_cases hcall).moves⟩
  | write fd buffer size => exact Or.inr ⟨fd, rfl, fsWrite_moves hcall⟩
  | seek fd offset =>
    exact Or.inr ⟨fd, rfl, (call_eq_some hcall).2 ▸ (fsSeek_cases s fd offset).moves⟩
  | getFileSize fd =>
    obtain ⟨_, -, heq⟩ := Option.map_eq_some_iff.1 hcall
    exact Or.inl ((Prod.mk.inj heq).2 ▸ .refl s)

/-- **The calls that do not reach the inodes** change the table of open files alone. -/
theorem call_onlyFiles {a : FileCall} (hcall : s.call ops a = some (r, t))
    (ha : a.onInodes = false) : ∃ files n, t = { s with openFiles := files, nextFd := n } := by
  have hoffset : ∀ {fd}, OnlyOffset fd s t →
      ∃ files n, t = { s with openFiles := files, nextFd := n } := by
    rintro fd (rfl | ⟨i, offset, -, rfl⟩)
    exacts [⟨_, _, rfl⟩, ⟨_, _, rfl⟩]
  cases a with
  | init _ _ | createFile _ | createDir _ | write _ _ _ => exact Bool.noConfusion ha
  | deleteFile _ | listDir _ => exact ⟨_, _, (call_eq_some hcall).2⟩
  | «open» filename mode =>
    rw [(call_eq_some hcall).2]
    cases filename with
    | none => exact ⟨_, _, rfl⟩
    | some filename =>
      rcases fsOpen_cases (s := s) filename mode with ⟨-, heq⟩ | ⟨i, -, heq⟩ <;> rw [heq]
      exacts [⟨_, _, rfl⟩, ⟨_, _, rfl⟩]
  | close fd =>
    rw [(call_eq_some hcall).2]
    rcases fsClose_cases s fd with ⟨-, heq⟩ | ⟨i, f, -, heq, -⟩ <;> rw [heq]
    exacts [⟨_, _, rfl⟩, ⟨_, _, rfl⟩]
  | read fd buffer size => exact hoffset (fsRead_cases hcall)
  | seek fd offset =>
    have hseek := fsSeek_cases s fd offset
    rw [← (call_eq_some hcall).2] at hseek
    exact hoffset hseek
  | getFileSize fd =>
    obtain ⟨_, -, heq⟩ := Option.map_eq_some_iff.1 hcall
    exact ⟨_, _, (Prod.mk.inj heq).2.symm⟩

end FileSystem

end LightNight
