import LightNightOS.Foundation.ByteMemory
import LightNightOS.Memory.BlockHeap
import Mathlib.Logic.Function.Basic

/-!
# `alloc_page`, `malloc` and `free`

The allocator of `memory.c`, on byte-addressed memory. Block headers are bytes in front of the
payloads, linked by `next` pointers; a pointer is a virtual address and `NULL` is `0`. The page
descriptors are an array of their own, linked by index: clearing a frame does not reach them. Where
no frame meets the array this is the same as keeping them in memory (`pages_mirrored`).

The two loops of the allocator walk the header list through memory, so each takes a bound on the
number of its iterations: the result is `none` when the bound is used up. The bound is `2 ^ 64`. A
walk that ends meets every 64-bit address at most once, so running out of it means that the list is
cyclic and the kernel's loop does not end. That this never happens in a reachable state is proved in
`HeapRefinement`, not assumed.

`taken` is the one field the kernel does not have: it records the pages `alloc_page` has handed out,
in order. No function reads it.
-/

namespace LightNight

/-! ### State -/

/-- The static variables of `memory.c`, the page descriptors and the memory behind them. -/
structure MemoryState where
  mem : ByteMemory
  pages : ℕ → Page
  pagesStruct : ℕ
  freePagesList : Option ℕ
  totalFreePages : ℕ
  kernelHeapStart : ℕ
  kernelHeapEnd : ℕ
  mallocHead : ℕ
  mallocTotalAllocated : ℕ
  mallocTotalFreed : ℕ
  /-- Virtual addresses of the pages handed out so far (a history of the run, read by no code). -/
  taken : List ℕ

/-! ### `struct malloc_header` -/

namespace Header

/-- The fields of `struct malloc_header`. -/
inductive Field
  | size
  | next
  | isFree
  deriving DecidableEq, Repr

/-- Offset of a field. -/
def Field.offset : Field → ℕ
  | size => 0
  | next => 8
  | isFree => 16

/-- Width of a field in bytes: two words and an `int`. -/
def Field.width : Field → ℕ
  | size => 8
  | next => 8
  | isFree => 4

/-- Read a field of the header at `h`. -/
def get (f : Field) (m : ByteMemory) (h : ℕ) : ℕ := m.load (h + f.offset) f.width

/-- Write a field of the header at `h`. -/
def set (f : Field) (m : ByteMemory) (h v : ℕ) : ByteMemory := m.store (h + f.offset) f.width v

/-- `header->size` -/
abbrev size : ByteMemory → ℕ → ℕ := get .size

/-- `header->next` -/
abbrev next : ByteMemory → ℕ → ℕ := get .next

/-- `header->is_free` -/
abbrev isFree : ByteMemory → ℕ → ℕ := get .isFree

/-- `header->size = v` -/
abbrev setSize : ByteMemory → ℕ → ℕ → ByteMemory := set .size

/-- `header->next = v` -/
abbrev setNext : ByteMemory → ℕ → ℕ → ByteMemory := set .next

/-- `header->is_free = v` -/
abbrev setIsFree : ByteMemory → ℕ → ℕ → ByteMemory := set .isFree

/-- The bytes of the header at `h`. -/
def bytes (h : ℕ) : Set ℕ := Set.Ico h (h + sizeofHeader)

variable {m m' : ByteMemory} {f g : Field} {h h' v : ℕ}

theorem Field.offset_add_width_le (f : Field) : f.offset + f.width ≤ sizeofHeader := by
  cases f <;> decide

/-- A field reads back what was stored in it. -/
theorem get_set_self (hv : v < 256 ^ f.width) : get f (set f m h v) h = v :=
  ByteMemory.load_store_self hv

/-- Writing back what a field holds changes nothing. -/
theorem set_get_self (hv : get f m h = v) : set f m h v = m := by
  rw [← hv]
  exact ByteMemory.store_load_self m _ _

/-- The fields of one header do not overlap. -/
theorem get_set_of_ne (hfg : f ≠ g) : get f (set g m h v) h = get f m h := by
  refine ByteMemory.load_store_of_disjoint ?_
  cases f <;> cases g <;> simp_all [Field.offset, Field.width]

/-- Headers that do not overlap are independent. -/
theorem get_set_of_apart (hh : h + sizeofHeader ≤ h' ∨ h' + sizeofHeader ≤ h) :
    get f (set g m h' v) h = get f m h := by
  refine ByteMemory.load_store_of_disjoint ?_
  have hf := f.offset_add_width_le
  have hg := g.offset_add_width_le
  omega

/-- A field depends only on the bytes of its header. -/
theorem get_congr (hm : Set.EqOn m m' (bytes h)) : get f m h = get f m' h := by
  refine ByteMemory.load_congr_of_subset hm fun x hx ↦ ?_
  have hf := f.offset_add_width_le
  have hlo := hx.1
  have hhi := hx.2
  exact ⟨by omega, by omega⟩

/-- Writing a field changes only bytes of its header. -/
theorem set_eqOn {s : Set ℕ} (hs : Disjoint (bytes h) s) : Set.EqOn (set f m h v) m s := by
  refine ByteMemory.store_eqOn (Set.disjoint_of_subset_left (fun x hx ↦ ?_) hs)
  have hf := f.offset_add_width_le
  have hlo := hx.1
  have hhi := hx.2
  exact ⟨by omega, by omega⟩

theorem get_lt_two_pow : get f m h < 2 ^ 64 :=
  (ByteMemory.load_lt m _ _).trans_le (by cases f <;> decide)

end Header

namespace MemoryState

/-! ### `alloc_page` -/

/-- `alloc_page`: unlink the first descriptor of the free list and clear its frame. The descriptor
stays, as where the array does not lie in the frame. -/
def allocPage (s : MemoryState) : Option (ℕ × MemoryState) :=
  match s.freePagesList with
  | none => none
  | some page =>
    let p := s.pages page
    some (page, { s with
      freePagesList := p.next
      pages := Function.update s.pages page { p with next := none, refCount := 1 }
      totalFreePages := u64 (s.totalFreePages + (2 ^ 64 - 1))
      mem := s.mem.fill (phyToVirt p.phyAddr) page2MSize 0
      taken := s.taken ++ [phyToVirt p.phyAddr] })

/-! ### `malloc` -/

/-- The number of iterations after which a walk over 64-bit pointers must have met a cycle. -/
def walkBound : ℕ := 2 ^ 64

/-- `if(!malloc_head)`: the first page becomes one free block. `none` when there is no page. -/
def initHeap (s : MemoryState) : Option MemoryState :=
  if s.mallocHead = 0 then
    match s.allocPage with
    | none => none
    | some (page, s) =>
      let head := phyToVirt (s.pages page).phyAddr
      let m := Header.setSize s.mem head (page2MSize - sizeofHeader)
      let m := Header.setNext m head 0
      let m := Header.setIsFree m head 1
      some { s with mem := m, mallocHead := head }
  else some s

/-- The search loop: the first free block that holds `totalSize` bytes, or `0`, together with the
last block passed on the way. -/
def findFit (m : ByteMemory) (totalSize : ℕ) : ℕ → ℕ → ℕ → Option (ℕ × ℕ)
  | 0, _, _ => none
  | fuel + 1, current, prev =>
    if current = 0 then some (0, prev)
    else if Header.isFree m current ≠ 0 ∧ totalSize ≤ Header.size m current then
      some (current, prev)
    else findFit m totalSize fuel (Header.next m current) current

/-- Split a block whose size field is already set, when it is large enough: the rest becomes a free
block, whose link is read off the memory by `next`. -/
def split (m : ByteMemory) (current size : ℕ) (next : ByteMemory → ℕ) : ByteMemory :=
  let totalSize := size + sizeofHeader
  if totalSize + sizeofHeader + 8 < Header.size m current then
    let newBlock := u64 (current + totalSize)
    let m := Header.setSize m newBlock (Header.size m current - totalSize)
    let m := Header.setNext m newBlock (next m)
    let m := Header.setIsFree m newBlock 1
    let m := Header.setSize m current size
    Header.setNext m current newBlock
  else m

/-- `malloc` from a block of the list. -/
def takeBlock (s : MemoryState) (current size : ℕ) : ℕ × MemoryState :=
  let m := split s.mem current size fun m ↦ Header.next m current
  let m := Header.setIsFree m current 0
  (u64 (current + sizeofHeader),
    { s with mem := m, mallocTotalAllocated := u64 (s.mallocTotalAllocated + size) })

/-- The headers `malloc` writes on a fresh page, linked behind `prev`. -/
def layFreshPage (m : ByteMemory) (prev newBlock size : ℕ) : ByteMemory :=
  let m := Header.setSize m newBlock (page2MSize - sizeofHeader)
  let m := Header.setNext m newBlock 0
  let m := Header.setIsFree m newBlock 0
  let m := if prev ≠ 0 then Header.setNext m prev newBlock else m
  split m newBlock size fun _ ↦ 0

/-- `malloc` from a fresh page, linked behind `prev`. -/
def takeFreshPage (s : MemoryState) (prev size : ℕ) : ℕ × MemoryState :=
  match s.allocPage with
  | none => (0, s)
  | some (page, s) =>
    let newBlock := phyToVirt (s.pages page).phyAddr
    (u64 (newBlock + sizeofHeader),
      { s with
        mem := layFreshPage s.mem prev newBlock size
        mallocTotalAllocated := u64 (s.mallocTotalAllocated + size) })

/-- `malloc`: the pointer returned, `0` on failure, and the state after the call. `none` when the
search does not end. -/
def malloc (s : MemoryState) (n : ℕ) : Option (ℕ × MemoryState) :=
  if n = 0 then some (0, s)
  else if maxAllowed < n then some (0, s)
  else
    let size := roundUp8 n
    match s.initHeap with
    | none => some (0, s)
    | some s =>
      match findFit s.mem (size + sizeofHeader) walkBound s.mallocHead 0 with
      | none => none
      | some (current, prev) =>
        if current ≠ 0 then some (s.takeBlock current size)
        else some (s.takeFreshPage prev size)

/-! ### `free` -/

/-- The coalescing loop. -/
def mergeLoop : ℕ → ByteMemory → ℕ → Option ByteMemory
  | 0, _, _ => none
  | fuel + 1, m, current =>
    if current = 0 ∨ Header.next m current = 0 then some m
    else if Header.isFree m current ≠ 0 ∧ Header.isFree m (Header.next m current) ≠ 0 then
      let mergedSize := u64 (u64 (Header.size m current + sizeofHeader) +
        Header.size m (Header.next m current))
      let m := Header.setSize m current mergedSize
      let m := Header.setNext m current (Header.next m (Header.next m current))
      mergeLoop fuel m current
    else mergeLoop fuel m (Header.next m current)

/-- `free`. `none` when the coalescing loop does not end. -/
def free (s : MemoryState) (ptr : ℕ) : Option MemoryState :=
  if ptr = 0 then some s
  else if ptr < phyToVirt s.kernelHeapStart ∨ phyToVirt s.kernelHeapEnd ≤ ptr then some s
  else
    let header := u64 (ptr + (2 ^ 64 - sizeofHeader))
    if page2MSize < Header.size s.mem header then some s
    else
      let m := Header.setIsFree s.mem header 1
      let freed := u64 (s.mallocTotalFreed + Header.size m header)
      match mergeLoop walkBound m s.mallocHead with
      | none => none
      | some m => some { s with mem := m, mallocTotalFreed := freed }

end MemoryState

end LightNight
