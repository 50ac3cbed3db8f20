import LightNightOS.FileSystem.Offsets

/-!
# The last write to an inode

The data of a file is where its inode points to, and stays there: other inodes have other blocks,
and no call but a write stores anything. So what was written last is what is read, through any
descriptor, as long as two things hold. No write is longer than the first one to its inode
(`Allowed`), which is what the block has room for; this is noted next to the state (`FileLog`). And
no inode is created that holds data (`KeepsData`). `fs_open` takes some names for the inodes 1 and 2
even where these were not created. A file that is written in this way is not known to
`fs_alloc_inode`, and is lost when its inode is created (`created_over`).

The proof follows the blocks and not the files. `Effect` sorts the steps by what they do to the
inodes and the heap: nothing, a new inode, or a write to the inode of a descriptor. `Sound` says
that the inodes with data have blocks in use, all different ones and each long enough for what was
written first; and `Holds`, of one inode, that its block has the bytes in question. A step that does
not write to an inode keeps `Holds` of it, since `malloc` keeps the blocks in use with their
contents.

* `Sound.step`, `Holds.step` — the two invariants, step by step;
* `Sound.write` — after a write the inode holds what was written;
* `last_write_wins` — the bytes that a later read returns, in every run that meets the conditions.
-/

namespace LightNight

open BlockHeap Transition

/-! ### Where a descriptor leads -/

namespace FileSystem

variable {σ : Type*} {s : FileSystem σ} {fd i : ℕ}

/-- The inode that `fs_write` writes to. -/
def writeTarget (s : FileSystem σ) (fd : ℕ) : Option ℕ :=
  (s.findFile fun f ↦ f.fd = fd ∧ f.inodeId < fsMaxInodes).map fun slot ↦ (s.openFiles slot).inodeId

/-- The descriptor is open on the inode `i`. -/
def OnInode (s : FileSystem σ) (fd i : ℕ) : Prop :=
  i < fsMaxInodes ∧
    ∃ slot, (s.findFile fun f ↦ f.fd = fd) = some slot ∧ (s.openFiles slot).inodeId = i

/-- The slot that is found by one test is found by two if it passes both. -/
theorem findFile_and {p q : FileDescriptor → Bool} {slot : FileSlot}
    (hfind : s.findFile p = some slot) (hq : q (s.openFiles slot) = true) :
    (s.findFile fun f ↦ p f && q f) = some slot := by
  rw [findFile, List.find?_eq_some_iff_append] at hfind ⊢
  obtain ⟨hp, l₁, l₂, hl, hbefore⟩ := hfind
  refine ⟨?_, l₁, l₂, hl, fun j hj ↦ ?_⟩
  · rw [hp, hq]
    rfl
  · have hj' := hbefore j hj
    rw [Bool.not_eq_true'] at hj' ⊢
    rw [hj', Bool.false_and]

/-- The slot that `fs_write` and `fs_get_file_size` find for a descriptor that is open on an
inode. -/
theorem OnInode.find (h : s.OnInode fd i) : ∃ slot,
    (s.findFile fun f ↦ f.fd = fd) = some slot ∧ (s.openFiles slot).inodeId = i ∧
      (s.findFile fun f ↦ f.fd = fd ∧ f.inodeId < fsMaxInodes) = some slot := by
  obtain ⟨hlt, slot, hfind, hi⟩ := h
  have hboth := findFile_and (q := fun f ↦ f.inodeId < fsMaxInodes) hfind (by rw [hi]; simpa)
  simp only [← Bool.decide_and] at hboth
  exact ⟨slot, hfind, hi, hboth⟩

/-- A write through a descriptor of an inode goes to this inode. -/
theorem OnInode.writeTarget (h : s.OnInode fd i) : s.writeTarget fd = some i := by
  obtain ⟨slot, -, hi, hfind⟩ := h.find
  rw [FileSystem.writeTarget, hfind, Option.map_some, hi]

end FileSystem

/-! ### The first write to an inode -/

/-- The file system, with the size of the first write to each inode. -/
structure FileLog where
  fs : FileSystem MemoryState
  first : ℕ → Option ℕ

namespace FileLog

/-- A write counts if it returned something else than -1. -/
def note (u : FileLog) : FileCall × FileResult → ℕ → Option ℕ
  | (.write fd _ size, r) =>
    match u.fs.writeTarget fd with
    | some i => if r.ret = -1 then u.first
      else Function.update u.first i (some ((u.first i).getD size))
    | none => u.first
  | _ => u.first

/-- A call, noted. -/
def Step (u : FileLog) (a : FileCall × FileResult) (v : FileLog) : Prop :=
  FileStep kernelHeap u.fs a v.fs ∧ v.first = u.note a

/-- No call of `fs_init`, and no write longer than the first one to its inode. -/
def Allowed (u : FileLog) : FileCall × FileResult → Prop
  | (.init _ _, _) => False
  | (.write fd _ size, _) => size < 2 ^ 32 ∧
      ∀ i n, u.fs.writeTarget fd = some i → u.first i = some n → size ≤ n
  | _ => True

/-- **The condition**: a call does not create an inode that holds data. -/
def KeepsData (u : FileLog) : FileCall × FileResult → Prop
  | (.createFile _, r) | (.createDir _, r) =>
      ∀ table, u.fs.inodeTable = some table → ∀ i : ℕ, r.ret = i → (table i).data = 0
  | _ => True

/-- A call does not write to the inode `i`. -/
def Spares (i : ℕ) (u : FileLog) : FileCall × FileResult → Prop
  | (.write fd _ _, r) => u.fs.writeTarget fd = some i → r.ret = -1
  | _ => True

/-- What a call does to the inodes and the heap. -/
inductive Effect (u : FileLog) (a : FileCall × FileResult) (v : FileLog) : Prop
  /-- At most a call of `malloc` that failed. -/
  | kept (hfirst : v.first = u.first) (htable : v.fs.inodeTable = u.fs.inodeTable)
      (hheap : v.fs.heap = u.fs.heap ∨ ∃ n, u.fs.heap.malloc n = some (0, v.fs.heap))
  | created {table : ℕ → Inode} {i : ℕ} {inode : Inode} (hfirst : v.first = u.first)
      (htable : u.fs.inodeTable = some table) (hold : u.KeepsData a → (table i).data = 0)
      (hdata : inode.data = 0) (hcreated : v.fs.inodeTable = some (Function.update table i inode))
      (hheap : v.fs.heap = u.fs.heap)
  | stored {table : ℕ → Inode} {fd size i p : ℕ} {bytes : ℕ → UInt8} {heap : MemoryState}
      {r : FileResult} (ha : a = (.write fd (some bytes) size, r)) (hret : r.ret = i32 size)
      (htarget : u.fs.writeTarget fd = some i) (htable : u.fs.inodeTable = some table)
      (hblock : u.fs.dataBlock kernelHeap (table i) size = some (p, heap)) (hp : p ≠ 0)
      (hstored : v.fs.inodeTable =
        some (Function.update table i { table i with data := p, size := size }))
      (hheap : v.fs.heap = kernelHeap.setMem heap (storeText heap.mem p size bytes))

variable {u v : FileLog} {a : FileCall × FileResult}

/-- Every call can be noted. -/
theorem step_note {t : FileSystem MemoryState} (h : FileStep kernelHeap u.fs a t) :
    Step u a ⟨t, u.note a⟩ :=
  ⟨h, rfl⟩

/-- A create changes one inode, which has no data then, and the heap not at all. -/
theorem Step.effect_create {filename : Option FileName} {fill : Inode → Inode} {r : FileResult}
    (hfill : ∀ inode, (fill inode).data = 0)
    (hcreate : u.fs.createInode filename fill = some (r, v.fs)) (hfirst : v.first = u.first)
    (hkeeps : u.KeepsData a → ∀ table, u.fs.inodeTable = some table →
      ∀ i : ℕ, r.ret = i → (table i).data = 0) : Effect u a v := by
  rcases FileSystem.createInode_cases hcreate
    with ⟨-, hsame⟩ | ⟨table, i, htable, -, -, -, hret, heq⟩
  · exact .kept hfirst (by rw [hsame]) (Or.inl (by rw [hsame]))
  · exact .created hfirst htable (fun h ↦ hkeeps h table htable i hret) (hfill _) (by rw [heq])
      (by rw [heq])

/-- **A call has one of three effects.** -/
theorem Step.effect (hstep : Step u a v) (hallowed : u.Allowed a) : Effect u a v := by
  obtain ⟨call, r⟩ := a
  obtain ⟨hcall, hfirst⟩ := hstep
  have hcall : u.fs.call kernelHeap call = some (r, v.fs) := hcall
  cases call with
  | init fresh bytes => exact hallowed.elim
  | createFile filename =>
    exact effect_create (fun _ ↦ rfl) (show u.fs.fsCreateFile filename = _ from hcall) hfirst id
  | createDir dirname =>
    exact effect_create (fun _ ↦ rfl) (show u.fs.fsCreateDir dirname = _ from hcall) hfirst id
  | write fd buffer size =>
    have hfail : r.ret = -1 → v.first = u.first := by
      intro hret
      rw [hfirst, note]
      split
      · rw [if_pos hret]
      · rfl
    rcases FileSystem.fsWrite_cases hcall with ⟨hret, hsame | ⟨slot, table, heap, -, hblock, heq⟩⟩ |
      ⟨slot, table, p, heap, bytes, hfind, htable, hblock, hp, rfl, -, hret, heq⟩
    · exact .kept (hfail hret) (by rw [hsame]) (Or.inl (by rw [hsame]))
    · refine .kept (hfail hret) (by rw [heq]) ?_
      rw [FileSystem.dataBlock] at hblock
      rw [heq]
      split at hblock
      · exact Or.inl (Prod.mk.inj (Option.some.inj hblock)).2.symm
      · exact Or.inr ⟨_, hblock⟩
    · refine .stored rfl hret ?_ htable hblock hp (by rw [heq]; rfl) (by rw [heq]; rfl)
      rw [FileSystem.writeTarget, hfind, Option.map_some]
  | _ =>
    obtain ⟨files, n, heq⟩ := FileSystem.call_onlyFiles hcall rfl
    exact .kept hfirst (by rw [heq]) (Or.inl (by rw [heq]))

/-! ### The blocks of the inodes -/

/-- A size that leaves room for a zero is not returned as -1. -/
theorem i32_ne_neg_one {n : ℕ} (hn : n + 1 < 2 ^ 32) : i32 n ≠ -1 := by
  rw [i32, u32_of_lt (by omega)]
  split <;> omega

/-- Inodes with data have blocks of their own, with room for the first write. -/
structure Sound (u : FileLog) : Prop where
  heap : ∃ h, HoldsHeap u.fs.heap h
  empty : ∀ table, u.fs.inodeTable = some table → ∀ i, u.first i = none → (table i).data = 0
  room : ∀ table, u.fs.inodeTable = some table → ∀ i n, u.first i = some n →
    n + 1 < 2 ^ 32 ∧ (table i).data ∈ u.fs.heap.inUse (n + 1)
  apart : ∀ table, u.fs.inodeTable = some table → ∀ i j, i ≠ j → (table i).data ≠ 0 →
    (table j).data ≠ (table i).data

/-- Just after `fs_init`. -/
theorem sound_init {s : FileSystem MemoryState} (hheap : ∃ h, HoldsHeap s.heap h)
    (htable : ∀ table, s.inodeTable = some table → ∀ i, (table i).data = 0) :
    Sound ⟨s, fun _ ↦ none⟩ where
  heap := hheap
  empty := fun table h i _ ↦ htable table h i
  room := fun _ _ _ _ h ↦ absurd h nofun
  apart := fun table h i _ _ hne ↦ absurd (htable table h i) hne

/-- An inode that holds data was written to. -/
theorem Sound.first_ne_none {table : ℕ → Inode} {i : ℕ} (hu : u.Sound)
    (htable : u.fs.inodeTable = some table) (hdata : (table i).data ≠ 0) :
    ∃ n, u.first i = some n := by
  rcases hi : u.first i with - | n
  · exact absurd (hu.empty table htable i hi) hdata
  · exact ⟨n, rfl⟩

/-- **The block that a write stores to** has room for the first write to its inode, and belongs to
no other inode. -/
theorem Sound.block {table : ℕ → Inode} {i size p : ℕ} {heap : MemoryState} (hu : u.Sound)
    (htable : u.fs.inodeTable = some table) (hsize : size < 2 ^ 32)
    (hfirst : ∀ n, u.first i = some n → size ≤ n)
    (hblock : u.fs.dataBlock kernelHeap (table i) size = some (p, heap)) (hp : p ≠ 0) :
    ((∃ h, HoldsHeap heap h) ∧ KeepsBlocks u.fs.heap heap) ∧
      (size ≤ (u.first i).getD size ∧ (u.first i).getD size + 1 < 2 ^ 32 ∧
        p ∈ heap.inUse ((u.first i).getD size + 1)) ∧
      ∀ j, i ≠ j → (table j).data ≠ p := by
  obtain ⟨h, hheap⟩ := hu.heap
  rcases hi : u.first i with - | n
  · -- the first write allocates the block
    have hdata : (table i).data = 0 := hu.empty table htable i hi
    rw [FileSystem.dataBlock, if_neg (not_not.2 hdata)] at hblock
    have hmalloc : u.fs.heap.malloc (u32 (size + 1)) = some (p, heap) := hblock
    have hmem := hheap.mem_inUse_malloc hmalloc hp
    have hpos := malloc_pos ((hheap.malloc hmalloc).2 ▸ hp)
    have hlt : size + 1 < 2 ^ 32 := by
      rw [u32] at hpos
      omega
    rw [u32_of_lt hlt] at hmem
    refine ⟨⟨⟨_, (hheap.malloc hmalloc).1⟩, keepsBlocks_malloc hheap hmalloc⟩,
      ⟨le_rfl, hlt, hmem⟩, fun j _ hj ↦ ?_⟩
    obtain ⟨n, hn⟩ := hu.first_ne_none htable (hj ▸ hp : (table j).data ≠ 0)
    have hold : p ∈ u.fs.heap.inUse (n + 1) := hj ▸ (hu.room table htable j n hn).2
    exact hheap.notMem_inUse hmalloc hp hold
  · -- a later write finds it
    obtain ⟨hlt, hmem⟩ := hu.room table htable i n hi
    have hdata : (table i).data ≠ 0 := MemoryState.ne_zero_of_mem_inUse hmem
    rw [FileSystem.dataBlock, if_pos hdata] at hblock
    obtain ⟨rfl, rfl⟩ := Prod.mk.inj (Option.some.inj hblock)
    exact ⟨⟨⟨h, hheap⟩, KeepsBlocks.refl _⟩, ⟨hfirst n hi, hlt, hmem⟩,
      fun j hij ↦ hu.apart table htable i j hij hdata⟩

/-- Where a heap keeps its blocks, so do the inodes. -/
theorem Sound.of_keepsBlocks (hu : u.Sound) (hheap : ∃ h, HoldsHeap v.fs.heap h)
    (hfirst : v.first = u.first) (htable : v.fs.inodeTable = u.fs.inodeTable)
    (hkeeps : KeepsBlocks u.fs.heap v.fs.heap) : v.Sound := by
  refine ⟨hheap, ?_, ?_, ?_⟩ <;> rw [htable]
  · rw [hfirst]
    exact hu.empty
  · rw [hfirst]
    intro table h i n hi
    obtain ⟨hlt, hmem⟩ := hu.room table h i n hi
    exact ⟨hlt, (hkeeps _ _ hmem).1⟩
  · exact hu.apart

/-- The cases of `Effect.kept`. -/
theorem Sound.kept (hu : u.Sound)
    (hheap : v.fs.heap = u.fs.heap ∨ ∃ n, u.fs.heap.malloc n = some (0, v.fs.heap)) :
    (∃ h, HoldsHeap v.fs.heap h) ∧ KeepsBlocks u.fs.heap v.fs.heap := by
  obtain ⟨h, hs⟩ := hu.heap
  rcases hheap with hsame | ⟨n, hmalloc⟩
  · rw [hsame]
    exact ⟨⟨h, hs⟩, KeepsBlocks.refl _⟩
  · exact ⟨⟨_, (hs.malloc hmalloc).1⟩, keepsBlocks_malloc hs hmalloc⟩

/-- **A call keeps the blocks of the inodes in order.** -/
theorem Sound.step (hu : u.Sound) (hstep : Step u a v) (hallowed : u.Allowed a)
    (hdata : u.KeepsData a) : v.Sound := by
  cases hstep.effect hallowed with
  | kept hfirst htable hheap =>
    obtain ⟨hheld, hkeeps⟩ := hu.kept hheap
    exact hu.of_keepsBlocks hheld hfirst htable hkeeps
  | @created table i inode hfirst htable hold hnew hcreated hheap =>
    have hzero := hold hdata
    refine ⟨hheap ▸ hu.heap, ?_, ?_, ?_⟩ <;> rw [hcreated] <;> rintro _ ⟨⟩ j
    · intro hj
      by_cases hji : j = i
      · rw [hji, Function.update_self]
        exact hnew
      · rw [Function.update_of_ne hji]
        exact hu.empty table htable j (hfirst ▸ hj)
    · intro n hj
      rw [hfirst] at hj
      have hroom := hu.room table htable j n hj
      have hji : j ≠ i := by
        rintro rfl
        exact MemoryState.ne_zero_of_mem_inUse hroom.2 hzero
      rw [Function.update_of_ne hji, hheap]
      exact hroom
    · intro k hjk hj
      by_cases hji : j = i
      · rw [hji, Function.update_self] at hj
        exact absurd hnew hj
      · rw [Function.update_of_ne hji] at hj ⊢
        by_cases hki : k = i
        · rw [hki, Function.update_self, hnew]
          exact hj.symm
        · rw [Function.update_of_ne hki]
          exact hu.apart table htable j k hjk hj
  | @stored table fd size i p bytes heap r ha hret htarget htable hblock hp hstored hheap =>
    subst ha
    obtain ⟨hsize, hfits⟩ := hallowed
    obtain ⟨⟨⟨h, hheld⟩, hkeeps⟩, ⟨hle, hlt, hmem⟩, hother⟩ :=
      hu.block htable hsize (hfits i · htarget) hblock hp
    have hnote : v.first = Function.update u.first i (some ((u.first i).getD size)) := by
      rw [hstep.2, note, htarget]
      exact if_neg (hret ▸ i32_ne_neg_one (Nat.lt_of_le_of_lt (Nat.succ_le_succ hle) hlt))
    have hroom : p ∈ heap.inUse (size + 1) := MemoryState.inUse_anti (Nat.succ_le_succ hle) hmem
    have hheld' := FileSystem.holdsHeap_storeText hheld hroom bytes
    have hsame : ∀ k, v.fs.heap.inUse k = heap.inUse k := fun k ↦
      hheap ▸ hheld.inUse_eq hheld'
    refine ⟨⟨h, hheap ▸ hheld'⟩, ?_, ?_, ?_⟩ <;> rw [hstored] <;> rintro _ ⟨⟩ j
    · rw [hnote]
      intro hj
      by_cases hji : j = i
      · rw [hji, Function.update_self] at hj
        exact absurd hj nofun
      · rw [Function.update_of_ne hji] at hj ⊢
        exact hu.empty table htable j hj
    · rw [hnote]
      intro n hj
      rw [hsame]
      by_cases hji : j = i
      · rw [hji, Function.update_self] at hj ⊢
        rw [← Option.some.inj hj]
        exact ⟨hlt, hmem⟩
      · rw [Function.update_of_ne hji] at hj ⊢
        obtain ⟨hlt', hmem'⟩ := hu.room table htable j n hj
        exact ⟨hlt', (hkeeps _ _ hmem').1⟩
    · intro k hjk hj
      by_cases hji : j = i
      · rw [hji] at hjk ⊢
        rw [Function.update_self, Function.update_of_ne hjk.symm]
        exact hother k hjk
      · rw [Function.update_of_ne hji] at hj ⊢
        by_cases hki : k = i
        · rw [hki, Function.update_self]
          exact (hother j (Ne.symm hji)).symm
        · rw [Function.update_of_ne hki]
          exact hu.apart table htable j k hjk hj

/-! ### What was written last -/

/-- The inode `i` holds the first `n` of these bytes. -/
def Holds (u : FileLog) (i n : ℕ) (bytes : ℕ → UInt8) : Prop :=
  ∃ table, u.fs.inodeTable = some table ∧ (table i).size = n ∧
    (table i).data ∈ u.fs.heap.inUse (n + 1) ∧
    ∀ k < n, u.fs.heap.mem ((table i).data + k) = bytes k

variable {i n : ℕ} {bytes : ℕ → UInt8}

/-- Where a heap keeps its blocks, an inode that points to the same one holds the same. -/
theorem Holds.of_keepsBlocks (h : u.Holds i n bytes)
    (htable : ∀ table, u.fs.inodeTable = some table →
      ∃ table', v.fs.inodeTable = some table' ∧ table' i = table i)
    (hkeeps : KeepsBlocks u.fs.heap v.fs.heap) : v.Holds i n bytes := by
  obtain ⟨table, hold, hsize, hmem, hbytes⟩ := h
  obtain ⟨table', hnew, hsame⟩ := htable table hold
  obtain ⟨hmem', heq⟩ := hkeeps _ _ hmem
  refine ⟨table', hnew, ?_, ?_, fun k hk ↦ ?_⟩ <;> rw [hsame]
  · exact hsize
  · exact hmem'
  · rw [heq ⟨Nat.le_add_right _ k, by omega⟩]
    exact hbytes k hk

/-- **A write leaves what it was given.** -/
theorem Sound.write {fd : ℕ} {r : FileResult} (hu : u.Sound)
    (hstep : Step u (.write fd (some bytes) n, r) v)
    (hallowed : u.Allowed (.write fd (some bytes) n, r)) (htarget : u.fs.writeTarget fd = some i)
    (hret : r.ret = n) :
    n < 2 ^ 31 ∧ v.Holds i n bytes := by
  have hcall : u.fs.fsWrite kernelHeap fd (some bytes) n = some (r, v.fs) := hstep.1
  obtain ⟨hsize, hfits⟩ := hallowed
  rcases FileSystem.fsWrite_cases hcall with ⟨hfail, -⟩ |
    ⟨slot, table, p, heap, bytes', hfind, htable, hblock, hp, hbytes, -, hsize', heq⟩
  · rw [hret] at hfail
    omega
  have hshort : n < 2 ^ 31 := by
    rw [hret, i32, u32_of_lt hsize] at hsize'
    split at hsize' <;> omega
  obtain rfl := Option.some.inj hbytes
  have hslot : (u.fs.openFiles slot).inodeId = i := by
    rw [FileSystem.writeTarget, hfind, Option.map_some] at htarget
    exact Option.some.inj htarget
  rw [hslot] at hblock
  obtain ⟨⟨⟨h, hheld⟩, -⟩, ⟨hle, -, hmem⟩, -⟩ :=
    hu.block htable hsize (hfits i · htarget) hblock hp
  have hroom : p ∈ heap.inUse (n + 1) := MemoryState.inUse_anti (Nat.succ_le_succ hle) hmem
  have hheap : v.fs.heap = kernelHeap.setMem heap (storeText heap.mem p n bytes) := by
    rw [heq]
    rfl
  refine ⟨hshort, _, by rw [heq]; rfl, ?_, ?_, fun k hk ↦ ?_⟩
  · rw [hslot, Function.update_self]
  · rw [hslot, Function.update_self, hheap,
      hheld.inUse_eq (FileSystem.holdsHeap_storeText hheld hroom bytes)]
    exact hroom
  · rw [hslot, Function.update_self, hheap]
    show storeText heap.mem p n bytes (p + k) = bytes k
    rw [storeText, if_pos ⟨Nat.le_add_right p k, by omega⟩, Nat.add_sub_cancel_left]

/-- **A call that does not write to an inode leaves what it holds.** -/
theorem Holds.step (h : u.Holds i n bytes) (hu : u.Sound) (hstep : Step u a v)
    (hallowed : u.Allowed a) (hdata : u.KeepsData a) (hspares : u.Spares i a) :
    v.Holds i n bytes := by
  cases hstep.effect hallowed with
  | kept _ htable hheap =>
    exact h.of_keepsBlocks (fun table htab ↦ ⟨table, htable.trans htab, rfl⟩) (hu.kept hheap).2
  | @created table j inode _ htable hold _ hcreated hheap =>
    refine h.of_keepsBlocks (fun table' htab ↦ ?_) (hheap ▸ KeepsBlocks.refl _)
    obtain rfl := Option.some.inj (htable.symm.trans htab)
    obtain ⟨table', htab', -, hmem, -⟩ := h
    obtain rfl := Option.some.inj (htable.symm.trans htab')
    have hij : i ≠ j := by
      rintro rfl
      exact MemoryState.ne_zero_of_mem_inUse hmem (hold hdata)
    exact ⟨_, hcreated, Function.update_of_ne hij ..⟩
  | @stored table fd size j p stored heap r ha hret htarget htable hblock hp hstored hheap =>
    subst ha
    obtain ⟨hsize, hfits⟩ := hallowed
    obtain ⟨⟨⟨h', hheld⟩, hkeeps⟩, ⟨hle, hlt, hmem⟩, hother⟩ :=
      hu.block htable hsize (hfits j · htarget) hblock hp
    have hroom : p ∈ heap.inUse (size + 1) := MemoryState.inUse_anti (Nat.succ_le_succ hle) hmem
    have hij : j ≠ i := by
      rintro rfl
      exact i32_ne_neg_one (Nat.lt_of_le_of_lt (Nat.succ_le_succ hle) hlt)
        (hret.symm.trans (hspares htarget))
    obtain ⟨table', htab, hsize', hmem', hbytes⟩ := h
    obtain rfl := Option.some.inj (htable.symm.trans htab)
    obtain ⟨hmem'', hsame⟩ := hkeeps _ _ hmem'
    have hapart := hheld.inUse_disjoint hroom hmem'' (hother i hij).symm
    have hmemv : (table i).data ∈ v.fs.heap.inUse (n + 1) := by
      rw [hheap, hheld.inUse_eq (FileSystem.holdsHeap_storeText hheld hroom stored)]
      exact hmem''
    refine ⟨_, hstored, ?_, ?_, fun k hk ↦ ?_⟩ <;> rw [Function.update_of_ne hij.symm]
    · exact hsize'
    · exact hmemv
    · have hin : (table i).data + k ∈ Set.Ico (table i).data ((table i).data + (n + 1)) :=
        ⟨Nat.le_add_right _ k, by omega⟩
      have hout := Set.disjoint_right.1 hapart hin
      rw [Set.mem_Ico] at hout
      rw [hheap]
      show storeText heap.mem p size stored ((table i).data + k) = bytes k
      rw [storeText, if_neg (by omega), if_neg (by omega), hsame hin]
      exact hbytes k hk

/-- An inode that holds bytes is read through any descriptor that is open on it. -/
theorem Holds.hasContent {fd : ℕ} (h : u.Holds i n bytes) (hfd : u.fs.OnInode fd i) :
    ∃ slot, u.fs.HasContent kernelHeap fd slot ((List.range n).map bytes) := by
  obtain ⟨hlt, slot, hfind, hi⟩ := hfd
  obtain ⟨table, htable, hsize, hmem, hbytes⟩ := h
  refine ⟨slot, hfind, hi ▸ hlt, table, htable, ?_, fun _ ↦ ?_, fun k hk ↦ ?_⟩ <;> rw [hi]
  · rw [hsize, List.length_map, List.length_range]
  · exact MemoryState.ne_zero_of_mem_inUse hmem
  · rw [List.length_map, List.length_range] at hk
    rw [List.getElem_map, List.getElem_range]
    exact hbytes k hk

/-! ### Every run -/

/-- A call that is allowed, and that meets the condition. -/
def Keeps (u : FileLog) (a : FileCall × FileResult) : Prop := u.Allowed a ∧ u.KeepsData a

end FileLog

/-- **The last write wins**, as long as no inode is created that holds data. Take a run behind
`fs_init` in which no write is longer than the first one to its inode. When a write of `n` bytes
through a descriptor on an inode has returned `n`, then after any calls that do not write to this
inode, and through any descriptor on it, `fs_read` of `m` bytes returns `min n m` and the bytes that
were written, and `fs_get_file_size` returns `n`. -/
theorem last_write_wins {heap : MemoryState} {h : BlockHeap} (hheap : HoldsHeap heap h)
    {fresh : ℕ → Inode} {clear : ℕ → UInt8} {s₀ : FileSystem MemoryState}
    (hinit : FileSystem.InitSucceeds kernelHeap (FileSystem.boot heap) fresh clear s₀)
    {before after : List (FileCall × FileResult)} {u v w : FileLog}
    (hbefore : Run (Guarded FileLog.Keeps FileLog.Step) ⟨s₀, fun _ ↦ none⟩ before u)
    {fd i n : ℕ} (hfd : u.fs.OnInode fd i) {bytes : ℕ → UInt8} {r : FileResult}
    (hallowed : u.Allowed (.write fd (some bytes) n, r))
    (hwrite : FileLog.Step u (.write fd (some bytes) n, r) v) (hret : r.ret = n)
    (hafter : Run (Guarded (fun u a ↦ u.Keeps a ∧ u.Spares i a) FileLog.Step) v after w)
    {fd' : ℕ} (hfd' : w.fs.OnInode fd' i) :
    (∀ m, 0 < m → ∀ buffer, ∃ r' t, FileStep kernelHeap w.fs (.read fd' (some buffer) m, r') t ∧
      r'.ret = (min n m : ℕ) ∧
      ∃ read, r'.buffer = some read ∧ ∀ k < min n m, read k = bytes k) ∧
    FileStep kernelHeap w.fs (.getFileSize fd', ⟨n, none⟩) w.fs := by
  have hsound₀ : FileLog.Sound ⟨s₀, fun _ ↦ none⟩ := by
    have hcall : FileStep kernelHeap (FileSystem.boot heap) (.init fresh clear, ⟨0, none⟩) s₀ :=
      congrArg (Option.map fun s ↦ ((⟨0, none⟩ : FileResult), s)) hinit.init
    have hheld := FileSystem.holdsHeap_step (a := (.init fresh clear, ⟨0, none⟩)) ⟨h, hheap⟩
      trivial hcall
    refine FileLog.sound_init hheld ?_
    intro table htable i
    obtain rfl := Option.some.inj (hinit.tables.2.2.1.symm.trans htable)
    rw [FileSystem.initInodes]
    split <;> rfl
  have hu : u.Sound := hbefore.invariant (I := FileLog.Sound)
    (fun hu hstep ↦ hu.step hstep.2 hstep.1.1 hstep.1.2) hsound₀
  obtain ⟨hshort, hv⟩ := hu.write hwrite hallowed hfd.writeTarget hret
  obtain ⟨-, hholds⟩ : w.Sound ∧ w.Holds i n bytes :=
    hafter.invariant (I := fun u ↦ u.Sound ∧ u.Holds i n bytes)
      (fun hu hstep ↦ ⟨hu.1.step hstep.2 hstep.1.1.1 hstep.1.1.2,
        hu.2.step hu.1 hstep.2 hstep.1.1.1 hstep.1.1.2 hstep.1.2⟩)
      ⟨hu.step hwrite hallowed trivial, hv⟩
  constructor
  · intro m hm buffer
    obtain ⟨slot, hfile⟩ := hholds.hasContent hfd'
    obtain ⟨r', t, hread, -, hret', read, hbuffer, hread'⟩ := hfile.read buffer hm
    rw [List.length_map, List.length_range, min_comm] at hret'
    refine ⟨r', t, hread, ?_, read, hbuffer, fun k hk ↦ ?_⟩
    · rw [hret', i32, u32_of_lt (by omega), if_pos (by omega)]
    · have hlength : k < (((List.range n).map bytes).take m).length := by
        rw [List.length_take, List.length_map, List.length_range]
        omega
      rw [hread' k hlength, List.getElem_take, List.getElem_map, List.getElem_range]
  · obtain ⟨slot, -, hi, hfind⟩ := hfd'.find
    obtain ⟨table, htable, hsize, -⟩ := hholds
    show (w.fs.fsGetFileSize fd').map (fun r ↦ (r, w.fs)) = _
    rw [FileSystem.fsGetFileSize, hfind, htable]
    show some ((⟨((table (w.fs.openFiles slot).inodeId).size : ℕ), none⟩ : FileResult), w.fs) = _
    rw [hi, hsize]

/-! ### A file that was not created -/

/-- The name `test.txt`. -/
def testTxt : FileName := ⟨fileName "test.txt", by decide⟩

/-- After `fs_init` and `fs_open` of `test.txt`: the first descriptor is open on the inode 1. -/
def openedTest {σ : Type*} (heap : σ) : FileSystem σ :=
  { (clearInit heap).setFile 0 ⟨1, 1, 0, 3, 1⟩ with nextFd := 2 }

/-- After a write of 9 bytes to it, with the heap that the data was allocated in. -/
def writtenTest (heap heap' : MemoryState) (bytes : ℕ → UInt8) : FileSystem MemoryState :=
  FileSystem.stored kernelHeap (openedTest heap) 0
    (FileSystem.initInodes fun _ ↦ ⟨0, 0, 0, 0, 0, 0, 0, 0⟩) dataAddr heap' 9 bytes

/-- A run of the small machine that opens `test.txt`, and writes 9 bytes to it. -/
theorem testTxt_written (bytes : ℕ → UInt8) : ∃ heap heap' fresh clear,
    FileSystem.InitSucceeds kernelHeap (FileSystem.boot (initPage smallMap .zeroed).2) fresh clear
      (clearInit heap) ∧
    Guarded FileLog.Keeps FileLog.Step ⟨clearInit heap, fun _ ↦ none⟩
      (.open (some testTxt) 3, ⟨1, none⟩) ⟨openedTest heap, fun _ ↦ none⟩ ∧
    Guarded FileLog.Keeps FileLog.Step ⟨openedTest heap, fun _ ↦ none⟩
      (.write 1 (some bytes) 9, ⟨9, some bytes⟩)
      ⟨writtenTest heap heap' bytes, Function.update (fun _ ↦ none) 1 (some 9)⟩ := by
  obtain ⟨heap, hheld, hinit⟩ := filesHeap_init
  have hcall : ((FileSystem.boot (initPage smallMap .zeroed).2).fsInit kernelHeap _ _).map
      (fun s ↦ ((⟨0, none⟩ : FileResult), s)) = some (⟨0, none⟩, clearInit heap) := hinit
  obtain ⟨t, ht, heq⟩ := Option.map_eq_some_iff.1 hcall
  obtain ⟨-, rfl⟩ := Prod.mk.inj heq
  have hfind : ((openedTest heap).findFile fun f ↦ f.fd = 1 ∧ f.inodeId < fsMaxInodes) = some 0 :=
    rfl
  obtain ⟨heap', -, -, hwrite⟩ := write_nine hheld hfind rfl rfl bytes
  exact ⟨heap, heap', _, _, ⟨ht, nofun, nofun, nofun⟩, ⟨⟨trivial, trivial⟩, rfl, rfl⟩,
    ⟨⟨by decide, nofun⟩, trivial⟩, hwrite, rfl⟩

/-- The general theorem on a file that is written and opened again. -/
theorem last_write_wins_reopened : ∃ (s₀ : FileSystem MemoryState) (u v w : FileLog)
    (fresh : ℕ → Inode) (clear : ℕ → UInt8),
    FileSystem.InitSucceeds kernelHeap (FileSystem.boot (initPage smallMap .zeroed).2) fresh clear
      s₀ ∧
    Run (Guarded FileLog.Keeps FileLog.Step) ⟨s₀, fun _ ↦ none⟩
      [(.open (some testTxt) 3, ⟨1, none⟩)] u ∧ u.fs.OnInode 1 1 ∧
    FileLog.Step u (.write 1 (some fun _ ↦ 65) 9, ⟨9, some fun _ ↦ 65⟩) v ∧
    Run (Guarded (fun u a ↦ u.Keeps a ∧ u.Spares 1 a) FileLog.Step) v
      [(.open (some testTxt) 1, ⟨2, none⟩)] w ∧ w.fs.OnInode 2 1 ∧
    (∀ m, 0 < m → ∀ buffer, ∃ r' t, FileStep kernelHeap w.fs (.read 2 (some buffer) m, r') t ∧
      r'.ret = (min 9 m : ℕ) ∧ ∃ read, r'.buffer = some read ∧ ∀ k < min 9 m, read k = 65) ∧
    FileStep kernelHeap w.fs (.getFileSize 2, ⟨9, none⟩) w.fs := by
  obtain ⟨heap, heap', fresh, clear, hinit, hopen, ⟨hallowed, -⟩, hwrite⟩ :=
    testTxt_written fun _ ↦ 65
  obtain ⟨t, hreopen, hfd'⟩ : ∃ t, FileStep kernelHeap (writtenTest heap heap' fun _ ↦ 65)
      (.open (some testTxt) 1, ⟨2, none⟩) t ∧ t.OnInode 2 1 :=
    ⟨_, rfl, by decide, 1, rfl, rfl⟩
  have hfd : (openedTest heap).OnInode 1 1 := ⟨by decide, 0, rfl, rfl⟩
  have hafter : Run (Guarded (fun u a ↦ u.Keeps a ∧ u.Spares 1 a) FileLog.Step)
      ⟨writtenTest heap heap' fun _ ↦ 65, Function.update (fun _ ↦ none) 1 (some 9)⟩
      [(.open (some testTxt) 1, ⟨2, none⟩)] _ :=
    Run.single ⟨⟨⟨trivial, trivial⟩, trivial⟩, FileLog.step_note hreopen⟩
  exact ⟨_, _, _, _, fresh, clear, hinit, Run.single hopen, hfd, hwrite, hafter, hfd',
    last_write_wins holdsHeap_smallHeap hinit (Run.single hopen) hfd hallowed hwrite rfl
      hafter hfd'⟩

/-- **A file is created over.** `test.txt` is opened and 9 bytes are written to it, which takes the
inode
1. Then `a` is created: it gets the inode 1 too. After that, `test.txt` has no bytes. -/
theorem created_over : ∃ (s₀ : FileSystem MemoryState) (u v w : FileLog) (fresh : ℕ → Inode)
    (clear : ℕ → UInt8),
    FileSystem.InitSucceeds kernelHeap (FileSystem.boot (initPage smallMap .zeroed).2) fresh clear
      s₀ ∧
    Run (Guarded FileLog.Allowed FileLog.Step) ⟨s₀, fun _ ↦ none⟩
      [(.open (some testTxt) 3, ⟨1, none⟩)] u ∧ u.fs.OnInode 1 1 ∧
    Guarded FileLog.Allowed FileLog.Step u (.write 1 (some fun _ ↦ 65) 9, ⟨9, some fun _ ↦ 65⟩) v ∧
    Run (Guarded (fun u a ↦ u.Allowed a ∧ u.Spares 1 a) FileLog.Step) v
      [(.createFile (some ⟨fileName "a", by decide⟩), ⟨1, none⟩),
        (.open (some testTxt) 1, ⟨2, none⟩)] w ∧ w.fs.OnInode 2 1 ∧
    (∃ r t, FileStep kernelHeap w.fs (.read 2 (some fun _ ↦ 0) 9, r) t ∧ r.ret = 0) ∧
    FileStep kernelHeap w.fs (.getFileSize 2, ⟨0, none⟩) w.fs := by
  obtain ⟨heap, heap', fresh, clear, hinit, ⟨⟨hallowed₁, -⟩, hopen⟩, ⟨hallowed, -⟩, hwrite⟩ :=
    testTxt_written fun _ ↦ 65
  obtain ⟨t₁, t₂, hcreate, hreopen, hfd', hread, hsize⟩ : ∃ t₁ t₂,
      FileStep kernelHeap (writtenTest heap heap' fun _ ↦ 65)
        (.createFile (some ⟨fileName "a", by decide⟩), ⟨1, none⟩) t₁ ∧
      FileStep kernelHeap t₁ (.open (some testTxt) 1, ⟨2, none⟩) t₂ ∧ t₂.OnInode 2 1 ∧
      (∃ r t, FileStep kernelHeap t₂ (.read 2 (some fun _ ↦ 0) 9, r) t ∧ r.ret = 0) ∧
      FileStep kernelHeap t₂ (.getFileSize 2, ⟨0, none⟩) t₂ :=
    ⟨_, _, rfl, rfl, ⟨by decide, 1, rfl, rfl⟩, ⟨_, _, rfl, rfl⟩, rfl⟩
  have hafter : Run (Guarded (fun u a ↦ u.Allowed a ∧ u.Spares 1 a) FileLog.Step)
      ⟨writtenTest heap heap' fun _ ↦ 65, Function.update (fun _ ↦ none) 1 (some 9)⟩
      [(.createFile (some ⟨fileName "a", by decide⟩), ⟨1, none⟩),
        (.open (some testTxt) 1, ⟨2, none⟩)] _ :=
    Run.cons ⟨⟨trivial, trivial⟩, FileLog.step_note hcreate⟩
      (Run.single ⟨⟨trivial, trivial⟩, FileLog.step_note hreopen⟩)
  exact ⟨_, _, _, _, fresh, clear, hinit, Run.single ⟨hallowed₁, hopen⟩, ⟨by decide, 0, rfl, rfl⟩,
    ⟨hallowed, hwrite⟩, hafter, hfd', hread, hsize⟩

end LightNight
