import LightNightOS.Memory.HeaderList

/-!
# The pointer code refines the block heap

`Represents s h` says that the memory state `s` of `memory.c` holds the block heap `h`: following
`malloc_head` through the `next` fields meets exactly the blocks of `h`, and following
`free_pages_list` meets exactly the pages of `h.supply`.

On a well-formed heap the two allocator functions are then computed by their abstract counterparts:

* `malloc_refines` — `malloc` returns, with the pointer that first fit on the block list gives, in a
  state representing the new block list;
* `free_refines` — `free` of the payload of a block in use returns, in a state representing the
  coalesced list.

Both leave the payload bytes of every block in use alone. Returning is part of the statement: the
number of blocks of a well-formed heap is below the bound of the two loops.

`malloc` has three ways to go, one for each case of `malloc_cases`: `malloc_place`, `malloc_page`
and `malloc_fail`. Of each it is shown that the loop ends where the search of the list does, and
that the writes behind it lay out the headers of the new list.
-/

namespace LightNight

open Interval BlockHeap

/-! ### The representation relation -/

/-- Following `next` in the descriptor array from `head` meets the descriptors listed, in order. -/
def PageChain (pages : ℕ → Page) : Option ℕ → List ℕ → Prop
  | head, [] => head = none
  | head, i :: l => head = some i ∧ PageChain pages (pages i).next l

/-- A chain depends only on the links of its descriptors. -/
theorem PageChain.congr {pages pages' : ℕ → Page} {head : Option ℕ} {l : List ℕ}
    (h : PageChain pages head l) (heq : ∀ i ∈ l, (pages' i).next = (pages i).next) :
    PageChain pages' head l := by
  induction l generalizing head with
  | nil => exact h
  | cons i l ih =>
    refine ⟨h.1, ?_⟩
    rw [heq i List.mem_cons_self]
    exact ih h.2 fun j hj ↦ heq j (List.mem_cons_of_mem i hj)

/-- The descriptors on the free list, with the virtual addresses of their pages. -/
def Supplies (pages : ℕ → Page) (freePagesList : Option ℕ) (supply : List ℕ) : Prop :=
  ∃ l : List ℕ, PageChain pages freePagesList l ∧ l.Nodup ∧
    supply = l.map fun i ↦ phyToVirt (pages i).phyAddr

theorem PageChain.eq_none_iff {pages : ℕ → Page} {head : Option ℕ} {l : List ℕ}
    (h : PageChain pages head l) : l = [] ↔ head = none := by
  cases l with
  | nil => exact iff_of_true rfl h
  | cons i l =>
    refine iff_of_false (List.cons_ne_nil i l) fun hnone ↦ ?_
    rw [h.1] at hnone
    cases hnone

/-- No pages are left when the free list is empty. -/
theorem Supplies.eq_nil_iff {pages : ℕ → Page} {freePagesList : Option ℕ} {supply : List ℕ}
    (h : Supplies pages freePagesList supply) : supply = [] ↔ freePagesList = none := by
  obtain ⟨l, hchain, -, rfl⟩ := h
  rw [List.map_eq_nil_iff]
  exact hchain.eq_none_iff

/-- The memory state holds the block heap. -/
structure Represents (s : MemoryState) (h : BlockHeap) : Prop where
  blocks : Linked s.mem s.mallocHead h.blocks 0
  supply : Supplies s.pages s.freePagesList h.supply
  taken : s.taken = h.taken
  allocated : s.mallocTotalAllocated = h.allocated
  freed : s.mallocTotalFreed = h.freed
  rangeStart : phyToVirt s.kernelHeapStart = h.rangeStart
  rangeEnd : phyToVirt s.kernelHeapEnd = h.rangeEnd

/-- Writes outside the headers do not change the heap held. -/
theorem Represents.of_eqOn {s : MemoryState} {h : BlockHeap} (hr : Represents s h) {m : ByteMemory}
    (hm : Set.EqOn m s.mem (headerRegion h.blocks)) : Represents { s with mem := m } h :=
  { hr with
    blocks := hr.blocks.congr fun _ hb _ hx ↦ hm (subset_headerRegion hb hx) }

/-- A new block list in memory, and one more allocation counted. -/
theorem Represents.allocate {s : MemoryState} {h : BlockHeap} (hr : Represents s h)
    {m : ByteMemory} {blocks : List Block} (hm : Linked m s.mallocHead blocks 0) (size : ℕ) :
    Represents { s with mem := m, mallocTotalAllocated := u64 (s.mallocTotalAllocated + size) }
      { h with blocks, allocated := u64 (h.allocated + size) } :=
  { hr with
    blocks := hm
    allocated := congrArg (fun n ↦ u64 (n + size)) hr.allocated }

/-! ### The blocks of a well-formed heap

What the loops need to know: sizes do not wrap when they are added, there are fewer blocks than
turns of a loop, and headers do not overlap each other or the payloads. -/

namespace BlockHeap.WellFormed

variable {h : BlockHeap}

/-- The blocks fit into the address space together. -/
theorem sum_lt (hwf : h.WellFormed) :
    (h.blocks.map fun b ↦ sizeofHeader + b.size).sum < 2 ^ 64 := by
  have hsum : (h.blocks.map fun b ↦ b.stop - b.addr).sum ≤ 2 ^ 64 - 1 :=
    sum_length_le hwf.disjoint fun b hb ↦ hwf.block_bounds hb
  have hlen : (h.blocks.map fun b ↦ b.stop - b.addr) =
      h.blocks.map fun b ↦ sizeofHeader + b.size := by
    refine List.map_congr_left fun b _ ↦ ?_
    simp only [Block.stop]
    omega
  rw [hlen] at hsum
  omega

/-- The bound of the loops exceeds the number of blocks. -/
theorem length_lt (hwf : h.WellFormed) : h.blocks.length < MemoryState.walkBound := by
  have hlen : ∀ l : List Block, l.length ≤ (l.map fun b ↦ sizeofHeader + b.size).sum := by
    intro l
    induction l with
    | nil => exact Nat.zero_le _
    | cons b l ih =>
      have hheader : 1 ≤ sizeofHeader := by decide
      rw [List.length_cons, List.map_cons, List.sum_cons]
      omega
  exact (hlen h.blocks).trans_lt hwf.sum_lt

theorem headersApart (hwf : h.WellFormed) : h.blocks.Pairwise Block.HeadersApart :=
  hwf.disjoint.imp Block.headersApart_of_disjoint

/-- No header overlaps the payload of a block in use. -/
theorem headerRegion_disjoint_payload (hwf : h.WellFormed) {b : Block} (hb : b ∈ h.blocks) :
    Disjoint (headerRegion h.blocks) b.payloadRegion := by
  refine Set.disjoint_iUnion₂_left.2 fun c hc ↦ Set.disjoint_left.2 fun x hx hx' ↦ ?_
  have hcb := hwf.eq_of_mem_extent hc hb (c.headerBytes_subset hx) (b.payloadRegion_subset hx')
  exact Set.disjoint_left.1 b.header_disjoint_payload (hcb ▸ hx) hx'

/-- The blocks beside a given one do not overlap it. -/
theorem apart_of_split (hwf : h.WellFormed) {l₁ l₂ : List Block} {b : Block}
    (hblocks : h.blocks = l₁ ++ b :: l₂) {c : Block} (hc : c ∈ l₁ ∨ c ∈ l₂) :
    Disjoint b.extent c.extent := by
  have hpair := List.pairwise_append.1 (hblocks ▸ hwf.disjoint)
  rcases hc with hc | hc
  · exact (hpair.2.2 c hc b List.mem_cons_self).symm
  · exact (List.pairwise_cons.1 hpair.2.1).1 c hc

theorem payload_ne_of_split (hwf : h.WellFormed) {l₁ l₂ : List Block} {b : Block}
    (hblocks : h.blocks = l₁ ++ b :: l₂) {c : Block} (hc : c ∈ l₁ ∨ c ∈ l₂) :
    c.payload ≠ b.payload := by
  intro heq
  have haddr : c.addr = b.addr := by
    simp only [Block.payload] at heq
    omega
  exact Set.disjoint_left.1 (hwf.apart_of_split hblocks hc) ⟨le_rfl, b.addr_lt_stop⟩
    ⟨haddr.le, haddr ▸ c.addr_lt_stop⟩

/-- A payload stands at one place of the list. -/
theorem split_unique (hwf : h.WellFormed) {l₁ l₂ m₁ m₂ : List Block} {b c : Block}
    (hl : h.blocks = l₁ ++ b :: l₂) (hm : h.blocks = m₁ ++ c :: m₂)
    (hbc : b.payload = c.payload) : l₁ = m₁ ∧ b = c ∧ l₂ = m₂ := by
  obtain rfl := hwf.eq_of_payload (by simp [hl]) (by simp [hm]) hbc
  have hside : ∀ c, c ∈ l₁ ∨ c ∈ l₂ → c ≠ b := fun c hc heq ↦
    hwf.payload_ne_of_split hl hc (congrArg Block.payload heq)
  exact (List.append_cons_inj_of_notMem (fun hb ↦ hside b (Or.inl hb) rfl)
    fun hb ↦ hside b (Or.inr hb) rfl).1 (hl.symm.trans hm)

/-- Marking hits exactly one block. -/
theorem mark_eq (hwf : h.WellFormed) {l₁ l₂ : List Block} {b : Block}
    (hblocks : h.blocks = l₁ ++ b :: l₂) :
    mark b.payload h.blocks = l₁ ++ { b with isFree := true } :: l₂ := by
  have hother : ∀ l : List Block, (∀ c ∈ l, c ∈ l₁ ∨ c ∈ l₂) → mark b.payload l = l :=
    fun l hl ↦ (List.map_congr_left fun c hc ↦
      if_neg (hwf.payload_ne_of_split hblocks (hl c hc))).trans (List.map_id l)
  have hhead : mark b.payload (b :: l₂) = { b with isFree := true } :: mark b.payload l₂ := by
    rw [mark, List.map_cons, if_pos rfl, mark]
  rw [hblocks, mark, List.map_append]
  exact congrArg₂ (· ++ ·) (hother l₁ fun c hc ↦ Or.inl hc)
    (hhead.trans (congrArg _ (hother l₂ fun c hc ↦ Or.inr hc)))

/-- The size `free` reads is that of the block. -/
theorem sizeAt_eq (hwf : h.WellFormed) {b : Block} (hb : b ∈ h.blocks) :
    sizeAt b.payload h.blocks = b.size := by
  rw [sizeAt]
  rcases hfind : h.blocks.find? fun c ↦ c.payload = b.payload with - | c
  · exact absurd (List.find?_eq_none.1 hfind b hb) (by simp)
  · have hc := List.mem_of_find?_eq_some hfind
    have hpayload : c.payload = b.payload := by simpa using List.find?_some hfind
    rw [hfind, Option.map_some, Option.getD_some, hwf.eq_of_payload hc hb hpayload]

end BlockHeap.WellFormed

/-! ### `alloc_page` -/

section AllocPage

variable {s : MemoryState} {h : BlockHeap}

theorem allocPage_none (hr : Represents s h) (hsupply : h.supply = []) : s.allocPage = none := by
  obtain ⟨l, hchain, -, hmap⟩ := hr.supply
  rw [hsupply] at hmap
  obtain rfl : l = [] := List.map_eq_nil_iff.1 hmap.symm
  rw [MemoryState.allocPage, show s.freePagesList = none from hchain]

/-- `alloc_page` takes the first page of the supply. -/
theorem allocPage_cons {page : ℕ} {supply : List ℕ}
    (hsupply : Supplies s.pages s.freePagesList (page :: supply)) :
    ∃ i pages head total, s.allocPage = some (i, { s with
        freePagesList := head, pages, totalFreePages := total
        mem := s.mem.fill page page2MSize 0, taken := s.taken ++ [page] }) ∧
      phyToVirt (pages i).phyAddr = page ∧ Supplies pages head supply := by
  obtain ⟨l, hchain, hnodup, hmap⟩ := hsupply
  obtain ⟨i, l, rfl, hpage, hmap⟩ := List.map_eq_cons_iff.1 hmap.symm
  obtain ⟨hhead, hchain⟩ := hchain
  obtain ⟨hi, hnodup⟩ := List.nodup_cons.1 hnodup
  -- the descriptor taken keeps its address, the others are untouched
  let p : Page := { s.pages i with next := none, refCount := 1 }
  have hphy : ∀ j, (Function.update s.pages i p j).phyAddr = (s.pages j).phyAddr := by
    intro j
    by_cases hj : j = i
    · rw [hj, Function.update_self]
    · rw [Function.update_of_ne hj]
  have hother : ∀ j ∈ l, (Function.update s.pages i p j).next = (s.pages j).next := by
    intro j hj
    have hji : j ≠ i := fun heq ↦ hi (heq ▸ hj)
    rw [Function.update_of_ne hji]
  refine ⟨i, Function.update s.pages i p, (s.pages i).next,
    u64 (s.totalFreePages + (2 ^ 64 - 1)), ?_, ?_, l, hchain.congr hother, hnodup, ?_⟩
  · rw [MemoryState.allocPage, hhead, ← hpage]
  · rw [hphy, hpage]
  · rw [← hmap]
    exact List.map_congr_left fun j _ ↦ by rw [hphy]

/-- **`alloc_page` on a heap**: the page is cleared, and no block lies there, so the blocks are
still held. -/
theorem allocPage_some (hr : Represents s h) (hwf : h.WellFormed) {page : ℕ} {supply : List ℕ}
    (hsupply : h.supply = page :: supply) (hpages : PagesValid (h.taken ++ [page])) :
    ∃ i s', s.allocPage = some (i, s') ∧ phyToVirt (s'.pages i).phyAddr = page ∧
      Set.EqOn s'.mem s.mem (Set.compl (pageRegion page)) ∧
      Represents s' { h with taken := h.taken ++ [page], supply } := by
  obtain ⟨i, pages, head, total, halloc, hpage, hsupplies⟩ := allocPage_cons (hsupply ▸ hr.supply)
  have hclear : Set.EqOn (s.mem.fill page page2MSize 0) s.mem (Set.compl (pageRegion page)) :=
    fun x hx ↦ ByteMemory.fill_of_notMem hx
  refine ⟨i, _, halloc, hpage, hclear, ?_⟩
  refine { hr with blocks := ?_, supply := hsupplies, taken := congrArg (· ++ [page]) hr.taken }
  refine hr.blocks.congr fun b hb ↦ hclear.mono fun x hx ↦ ?_
  exact Set.disjoint_left.1 (hwf.disjoint_page hpages hb) (b.headerBytes_subset hx)

end AllocPage

/-! ### `malloc` -/

section Malloc

variable {s : MemoryState} {h : BlockHeap} {size : ℕ}

/-- The pointer behind a header does not wrap. -/
theorem u64_payload {b : Block} (hfits : size + sizeofHeader ≤ b.size) (hstop : b.stop ≤ 2 ^ 64) :
    u64 (b.addr + sizeofHeader) = b.payload := by
  refine u64_of_lt ?_
  simp only [Block.stop, sizeofHeader] at hfits hstop ⊢
  omega

/-- Taking a block of the list that lies apart from the others carves it in place. Nothing outside
the block is written. -/
theorem takeBlock_refines (hr : Represents s h) {l₁ l₂ : List Block} {b : Block}
    (hblocks : h.blocks = l₁ ++ b :: l₂) (hstop : b.stop ≤ 2 ^ 64)
    (hapart : ∀ c, c ∈ l₁ ∨ c ∈ l₂ → Disjoint b.extent c.extent) (hfits : b.Fits size) :
    ∃ s', s.takeBlock b.addr size = (b.payload, s') ∧
      Represents s' { h with
        blocks := l₁ ++ b.carve size ++ l₂, allocated := u64 (h.allocated + size) } ∧
      ∀ r, Disjoint b.extent r → Set.EqOn s'.mem s.mem r := by
  obtain ⟨a, hl₁, rfl, hne, hsize, -, hl₂⟩ := linked_append.1 (hblocks ▸ hr.blocks)
  have hframe : ∀ r, Disjoint b.extent r → Set.EqOn (Header.setIsFree
      (MemoryState.split s.mem b.addr size fun m ↦ Header.next m b.addr) b.addr 0) s.mem r := by
    intro r hdisjoint
    have hheader := Set.disjoint_of_subset_left b.headerBytes_subset hdisjoint
    exact (Header.set_eqOn hheader).trans (split_eqOn hsize hstop hdisjoint)
  have hkeep : ∀ c : Block, c ∈ l₁ ∨ c ∈ l₂ → Set.EqOn (Header.setIsFree
      (MemoryState.split s.mem b.addr size fun m ↦ Header.next m b.addr) b.addr 0) s.mem
      (Header.bytes c.addr) := fun c hc ↦ hframe _
    (Set.disjoint_of_subset_right c.headerBytes_subset (hapart c hc))
  have hlinked : Linked (Header.setIsFree
      (MemoryState.split s.mem b.addr size fun m ↦ Header.next m b.addr) b.addr 0) s.mallocHead
      (l₁ ++ b.carve size ++ l₂) 0 := by
    refine linked_append.2 ⟨Header.next s.mem b.addr, linked_append.2 ⟨b.addr, ?_, ?_⟩, ?_⟩
    · exact hl₁.congr fun c hc ↦ hkeep c (Or.inl hc)
    · exact linked_carve hne hsize hstop rfl fun v ↦ Header.get_set_of_apart (Or.inl (by omega))
    · exact hl₂.congr fun c hc ↦ hkeep c (Or.inr hc)
  refine ⟨_, ?_, hr.allocate hlinked size, hframe⟩
  rw [MemoryState.takeBlock, u64_payload hfits.2 hstop]

/-- Taking a fresh page appends the carved page block to a non-empty list. Nothing outside the page
and the last header is written. -/
theorem takeFreshPage_refines (hr : Represents s h) (hwf : h.WellFormed) {l : List Block}
    {last : Block} (hblocks : h.blocks = l ++ [last]) {page : ℕ} {supply : List ℕ}
    (hsupply : h.supply = page :: supply) (hpages : PagesValid (h.taken ++ [page]))
    (hfits : (pageBlock page).Fits size) :
    ∃ s', s.takeFreshPage last.addr size = (page + sizeofHeader, s') ∧
      Represents s' { h with
        blocks := h.blocks ++ (pageBlock page).carve size, taken := h.taken ++ [page], supply
        allocated := u64 (h.allocated + size) } ∧
      ∀ r, Disjoint (pageRegion page) r → Disjoint (Header.bytes last.addr) r →
        Set.EqOn s'.mem s.mem r := by
  obtain ⟨i, s₁, halloc, hpage, hcleared, hr₁⟩ := allocPage_some hr hwf hsupply hpages
  obtain ⟨hpos, -, htop⟩ := hpages.valid page (by simp)
  have hlast : last ∈ h.blocks := by simp [hblocks]
  have hextent : (pageBlock page).extent = pageRegion page := by
    rw [Block.extent, pageRegion, pageBlock_stop, pageBlock_addr]
  have hstop : (pageBlock page).stop ≤ 2 ^ 64 := by rwa [pageBlock_stop]
  have hbeside : ∀ b ∈ h.blocks, Disjoint (pageBlock page).extent (Header.bytes b.addr) := by
    intro b hb
    rw [hextent]
    exact (Set.disjoint_of_subset_left b.headerBytes_subset (hwf.disjoint_page hpages hb)).symm
  have hptr := u64_payload (b := pageBlock page) hfits.2 hstop
  rw [Block.payload, pageBlock_addr] at hptr
  have htake : s.takeFreshPage last.addr size = (page + sizeofHeader, { s₁ with
      mem := MemoryState.layFreshPage s₁.mem last.addr page size
      mallocTotalAllocated := u64 (s₁.mallocTotalAllocated + size) }) := by
    rw [MemoryState.takeFreshPage, halloc]
    simp only [hpage, hptr]
  have hlinked : Linked (MemoryState.layFreshPage s₁.mem last.addr page size) s₁.mallocHead
      (h.blocks ++ (pageBlock page).carve size) 0 := by
    have hblocks₁ : Linked s₁.mem s₁.mallocHead (l ++ [last]) 0 := hblocks ▸ hr₁.blocks
    rw [hblocks]
    exact linked_layFreshPage hblocks₁ (hblocks ▸ hwf.headersApart) (hblocks ▸ hbeside)
      hpos.ne' hstop
  refine ⟨_, htake, hr₁.allocate hlinked size, fun r hdisjoint hheader ↦ ?_⟩
  have houtside : r ⊆ Set.compl (pageRegion page) := fun x hx hx' ↦
    Set.disjoint_left.1 hdisjoint hx' hx
  have hlaid : Set.EqOn (MemoryState.layFreshPage s₁.mem last.addr page size) s₁.mem r :=
    layFreshPage_eqOn (hwf.block_bounds hlast).1.ne' (hbeside last hlast).symm hstop
      (hextent ▸ hdisjoint) hheader
  dsimp only
  exact hlaid.trans (hcleared.mono houtside)

/-- The first page becomes one free block. -/
theorem initHeap_refines (hr : Represents s h) (hwf : h.WellFormed) (hblocks : h.blocks = [])
    {page : ℕ} {supply : List ℕ} (hsupply : h.supply = page :: supply)
    (hpages : PagesValid (h.taken ++ [page])) :
    ∃ s', s.initHeap = some s' ∧ Represents s' { h with
      blocks := [pageBlock page], taken := h.taken ++ [page], supply } := by
  have hhead : s.mallocHead = 0 := hr.blocks.eq_zero_iff.2 hblocks
  obtain ⟨i, s₁, halloc, hpage, -, hr₁⟩ := allocPage_some hr hwf hsupply hpages
  have hpos := (hpages.valid page (by simp)).1
  have hinit : s.initHeap = some { s₁ with
      mem := Header.setIsFree (Header.setNext (Header.setSize s₁.mem page
        (page2MSize - sizeofHeader)) page 0) page 1
      mallocHead := page } := by
    rw [MemoryState.initHeap, if_pos hhead, halloc]
    simp only [hpage]
  refine ⟨_, hinit, { hr₁ with blocks := ⟨rfl, hpos.ne', ?_, ?_, ?_⟩ }⟩
  · show Header.get .size _ page = _
    rw [Header.get_set_of_ne (by decide), Header.get_set_of_ne (by decide),
      Header.get_set_self (by decide), pageBlock]
  · show Header.get .isFree _ page = 1
    rw [Header.get_set_self (by decide)]
  · show Header.get .next _ page = 0
    rw [Header.get_set_of_ne (by decide), Header.get_set_self (by decide)]

/-- A free block overlaps no payload in use. -/
theorem BlockHeap.WellFormed.free_disjoint_payload (hwf : h.WellFormed) {b c : Block}
    (hb : b ∈ h.blocks) (hfree : b.isFree = true) (hc : c ∈ h.used) :
    Disjoint b.extent c.payloadRegion := by
  obtain ⟨hc, hused⟩ := mem_used.1 hc
  refine Set.disjoint_left.2 fun x hx hx' ↦ ?_
  have hbc := hwf.eq_of_mem_extent hb hc hx (c.payloadRegion_subset hx')
  exact absurd (hfree.symm.trans (hbc ▸ hused)) Bool.true_eq_false.mp

/-- A heap that has blocks is not initialised again. -/
theorem initHeap_of_ne_nil (hr : Represents s h) (hblocks : h.blocks ≠ []) :
    s.initHeap = some s :=
  if_neg fun h₀ ↦ hblocks (hr.blocks.eq_zero_iff.1 h₀)

/-- `malloc` takes the first block that fits. -/
theorem malloc_eq_takeBlock (hr : Represents s h) {n : ℕ} (hpos : 0 < n) (hle : n ≤ maxAllowed)
    {l₁ l₂ : List Block} {b : Block} (hblocks : h.blocks = l₁ ++ b :: l₂)
    (hl₁ : ∀ c ∈ l₁, ¬c.Fits (roundUp8 n)) (hfits : b.Fits (roundUp8 n)) (hne : b.addr ≠ 0)
    (hlength : h.blocks.length < MemoryState.walkBound) :
    s.malloc n = some (s.takeBlock b.addr (roundUp8 n)) := by
  rw [hblocks, List.length_append] at hlength
  have hfind := findFit_found 0 (hblocks ▸ hr.blocks) hl₁ hfits
    (show l₁.length < MemoryState.walkBound by omega)
  have hinit := initHeap_of_ne_nil hr (show h.blocks ≠ [] by simp [hblocks])
  rw [MemoryState.malloc, if_neg hpos.ne', if_neg (Nat.not_lt.2 hle)]
  simp only [hinit, hfind, if_pos hne]

/-- `malloc` asks for a page when no block fits. -/
theorem malloc_eq_takeFreshPage (hr : Represents s h) {n : ℕ} (hpos : 0 < n) (hle : n ≤ maxAllowed)
    (hblocks : h.blocks ≠ []) (hno : ∀ b ∈ h.blocks, ¬b.Fits (roundUp8 n))
    (hlength : h.blocks.length < MemoryState.walkBound) :
    s.malloc n = some (s.takeFreshPage (lastAddr 0 h.blocks) (roundUp8 n)) := by
  have hfind := findFit_none 0 hr.blocks hno hlength
  rw [MemoryState.malloc, if_neg hpos.ne', if_neg (Nat.not_lt.2 hle)]
  simp only [initHeap_of_ne_nil hr hblocks, hfind, ne_eq, not_true_eq_false, if_false]

/-- `malloc` when a block fits. -/
theorem malloc_place (hr : Represents s h) (hwf : h.WellFormed) {n : ℕ} (hpos : 0 < n)
    (hle : n ≤ maxAllowed) {l₁ l₂ : List Block} {b : Block} (hblocks : h.blocks = l₁ ++ b :: l₂)
    (hl₁ : ∀ c ∈ l₁, ¬c.Fits (roundUp8 n)) (hfits : b.Fits (roundUp8 n)) :
    ∃ s', s.malloc n = some (b.payload, s') ∧
      Represents s' { h with
        blocks := l₁ ++ b.carve (roundUp8 n) ++ l₂
        allocated := u64 (h.allocated + roundUp8 n) } ∧
      ∀ c ∈ h.used, Set.EqOn s'.mem s.mem c.payloadRegion := by
  have hb : b ∈ h.blocks := by simp [hblocks]
  obtain ⟨haddr, hstop⟩ := hwf.block_bounds hb
  obtain ⟨s', htake, hr', hframe⟩ :=
    takeBlock_refines hr hblocks hstop (fun c hc ↦ hwf.apart_of_split hblocks hc) hfits
  rw [malloc_eq_takeBlock hr hpos hle hblocks hl₁ hfits haddr.ne' hwf.length_lt, htake]
  exact ⟨s', rfl, hr', fun c hc ↦ hframe _ (hwf.free_disjoint_payload hb hfits.1 hc)⟩

/-- `malloc` when no block fits and there is a page left: the first page of the heap is taken as a
free block and carved, a later one is appended carved. -/
theorem malloc_page (hr : Represents s h) (hwf : h.WellFormed) {n : ℕ} (hpos : 0 < n)
    (hle : n ≤ maxAllowed) (hno : ∀ b ∈ h.blocks, ¬b.Fits (roundUp8 n)) {page : ℕ}
    {supply : List ℕ} (hsupply : h.supply = page :: supply)
    (hpages : PagesValid (h.taken ++ [page])) :
    ∃ s', s.malloc n = some (page + sizeofHeader, s') ∧
      Represents s' { h with
        blocks := h.blocks ++ (pageBlock page).carve (roundUp8 n)
        taken := h.taken ++ [page], supply
        allocated := u64 (h.allocated + roundUp8 n) } ∧
      ∀ c ∈ h.used, Set.EqOn s'.mem s.mem c.payloadRegion := by
  rcases List.eq_nil_or_concat h.blocks with hblocks | ⟨l, last, hblocks⟩
  · obtain ⟨s₁, hinit, hr₁⟩ := initHeap_refines hr hwf hblocks hsupply hpages
    have hstop : (pageBlock page).stop ≤ 2 ^ 64 := by
      rw [pageBlock_stop]
      exact (hpages.valid page (by simp)).2.2
    obtain ⟨s₂, htake, hr₂, -⟩ := takeBlock_refines hr₁
      (show [pageBlock page] = [] ++ pageBlock page :: [] from rfl) hstop (by simp)
      (pageBlock_fits hle)
    have hfind := @findFit_found _ _ _ MemoryState.walkBound 0 [] [] _ hr₁.blocks (by simp)
      (pageBlock_fits hle) (by decide)
    have hne : (pageBlock page).addr ≠ 0 := hr₁.blocks.2.1
    have hused : h.used = [] := by rw [used, hblocks, List.filter_nil]
    rw [MemoryState.malloc, if_neg hpos.ne', if_neg (Nat.not_lt.2 hle)]
    simp only [hinit, hfind, if_pos hne, htake, hused, hblocks, List.nil_append]
    refine ⟨s₂, rfl, ?_, by simp⟩
    simpa only [List.append_nil, List.nil_append] using hr₂
  · rw [List.concat_eq_append] at hblocks
    obtain ⟨s', htake, hr', hframe⟩ := takeFreshPage_refines hr hwf hblocks hsupply hpages
      (pageBlock_fits hle)
    have hmalloc := malloc_eq_takeFreshPage hr hpos hle (by simp [hblocks]) hno hwf.length_lt
    rw [hblocks, lastAddr_append_singleton, htake] at hmalloc
    refine ⟨s', hmalloc, hr', fun b hb ↦ ?_⟩
    have hb := (mem_used.1 hb).1
    refine hframe _ ?_ ?_
    · exact (Set.disjoint_of_subset_left b.payloadRegion_subset (hwf.disjoint_page hpages hb)).symm
    · exact Set.disjoint_of_subset_left (subset_headerRegion (by simp [hblocks]))
        (hwf.headerRegion_disjoint_payload hb)

/-- `malloc` when nothing fits and the pages are used up. -/
theorem malloc_fail (hr : Represents s h) (hwf : h.WellFormed) {n : ℕ}
    (hno : n = 0 ∨ maxAllowed < n ∨
      (∀ b ∈ h.blocks, ¬b.Fits (roundUp8 n)) ∧ h.supply = []) : s.malloc n = some (0, s) := by
  by_cases hn : n = 0 ∨ maxAllowed < n
  · rw [MemoryState.malloc]
    split
    · rfl
    · rw [if_pos (hn.resolve_left ‹_›)]
  · obtain ⟨hno, hsupply⟩ : (∀ b ∈ h.blocks, ¬b.Fits (roundUp8 n)) ∧ h.supply = [] := by
      rcases hno with h₀ | hlt | hno
      exacts [absurd (Or.inl h₀) hn, absurd (Or.inr hlt) hn, hno]
    have hpos : 0 < n := by omega
    have hle : n ≤ maxAllowed := by omega
    by_cases hblocks : h.blocks = []
    · have hinit : s.initHeap = none := by
        rw [MemoryState.initHeap, if_pos (hr.blocks.eq_zero_iff.2 hblocks),
          allocPage_none hr hsupply]
      rw [MemoryState.malloc, if_neg hpos.ne', if_neg (Nat.not_lt.2 hle), hinit]
    · rw [malloc_eq_takeFreshPage hr hpos hle hblocks hno hwf.length_lt, MemoryState.takeFreshPage,
        allocPage_none hr hsupply]

/-- **`malloc` is first fit on the block list.** It returns, and it changes no payload in use. The
page it may take must be a valid one. -/
theorem malloc_refines (hr : Represents s h) (hwf : h.WellFormed) {n : ℕ}
    (hpages : PagesValid (h.malloc n).2.taken) :
    ∃ s', s.malloc n = some ((h.malloc n).1, s') ∧ Represents s' (h.malloc n).2 ∧
      ∀ b ∈ h.used, Set.EqOn s'.mem s.mem b.payloadRegion := by
  rcases h.malloc_cases n with ⟨hfail, hno⟩ | ⟨hpos, hle, l₁, b, l₂, hl, hl₁, hfits, hplaced⟩ |
    ⟨hpos, hle, hno, page, supply, hsupply, hpage⟩
  · rw [hfail]
    exact ⟨s, malloc_fail hr hwf hno, hr, fun _ _ _ _ ↦ rfl⟩
  · rw [hplaced]
    exact malloc_place hr hwf hpos hle hl hl₁ hfits
  · rw [hpage] at hpages ⊢
    exact malloc_page hr hwf hpos hle hno hsupply hpages

/-! ### The pages handed out

`taken` only ever grows at its end. So a condition on all pages that a run hands out is a condition
on all pages handed out at each point of it. -/

theorem allocPage_taken {i : ℕ} {s' : MemoryState} (halloc : s.allocPage = some (i, s')) :
    s.taken <+: s'.taken := by
  rw [MemoryState.allocPage] at halloc
  split at halloc
  case h_1 => cases halloc
  case h_2 =>
    obtain ⟨rfl, rfl⟩ := Prod.mk.inj (Option.some.inj halloc)
    exact List.prefix_append _ _

/-- Setting up the heap hands out one page, or none. -/
theorem initHeap_taken {s' : MemoryState} (hinit : s.initHeap = some s') :
    s.taken <+: s'.taken := by
  rw [MemoryState.initHeap] at hinit
  split at hinit
  case isFalse => rw [← Option.some.inj hinit]
  case isTrue =>
    split at hinit
    case h_1 => cases hinit
    case h_2 i s₁ halloc =>
      have htaken : s.taken <+: s₁.taken := allocPage_taken halloc
      rw [← Option.some.inj hinit]
      exact htaken

theorem takeFreshPage_taken (s : MemoryState) (prev size : ℕ) :
    s.taken <+: (s.takeFreshPage prev size).2.taken := by
  rw [MemoryState.takeFreshPage]
  split
  case h_1 => exact List.prefix_rfl
  case h_2 i s₁ halloc =>
    have htaken : s.taken <+: s₁.taken := allocPage_taken halloc
    exact htaken

/-- `malloc` hands out pages and takes none back. -/
theorem malloc_taken_of_initHeap {s₁ : MemoryState} {n p : ℕ} {s' : MemoryState}
    (hinit : s.initHeap = some s₁) (hpos : 0 < n) (hle : n ≤ maxAllowed)
    (hmalloc : s.malloc n = some (p, s')) : s₁.taken <+: s'.taken := by
  rw [MemoryState.malloc, if_neg hpos.ne', if_neg (Nat.not_lt.2 hle)] at hmalloc
  simp only [hinit] at hmalloc
  split at hmalloc
  case h_1 => cases hmalloc
  case h_2 =>
    split at hmalloc
    · rw [← (Prod.mk.inj (Option.some.inj hmalloc)).2]
    · rw [← (Prod.mk.inj (Option.some.inj hmalloc)).2]
      exact takeFreshPage_taken _ _ _

theorem malloc_taken {n p : ℕ} {s' : MemoryState} (hmalloc : s.malloc n = some (p, s')) :
    s.taken <+: s'.taken := by
  by_cases hn : n = 0 ∨ maxAllowed < n
  · rw [MemoryState.malloc] at hmalloc
    have hs' : s = s' := by
      rcases hn with hn | hn
      · rw [if_pos hn] at hmalloc
        exact (Prod.mk.inj (Option.some.inj hmalloc)).2
      · rw [if_pos hn, ite_self] at hmalloc
        exact (Prod.mk.inj (Option.some.inj hmalloc)).2
    rw [hs']
  · have hpos : 0 < n := by omega
    have hle : n ≤ maxAllowed := by omega
    rcases hinit : s.initHeap with - | s₁
    · rw [MemoryState.malloc, if_neg hpos.ne', if_neg (Nat.not_lt.2 hle), hinit] at hmalloc
      rw [(Prod.mk.inj (Option.some.inj hmalloc)).2]
    · exact (initHeap_taken hinit).trans (malloc_taken_of_initHeap hinit hpos hle hmalloc)

/-- The page that `malloc` takes on the block list is handed out by the code, whatever page it
is. -/
theorem malloc_taken_extends (hr : Represents s h) (hwf : h.WellFormed) {n p : ℕ} {s' : MemoryState}
    (hmalloc : s.malloc n = some (p, s')) : (h.malloc n).2.taken <+: s'.taken := by
  rcases h.malloc_cases n with ⟨hfail, -⟩ | ⟨-, -, l₁, b, l₂, -, -, -, hplaced⟩ |
    ⟨hpos, hle, hno, page, supply, hsupply, hpage⟩
  · rw [hfail, ← hr.taken]
    exact malloc_taken hmalloc
  · rw [hplaced]
    exact hr.taken ▸ malloc_taken hmalloc
  · rw [hpage]
    obtain ⟨i, pages, head, total, halloc, -⟩ := allocPage_cons (hsupply ▸ hr.supply)
    show h.taken ++ [page] <+: s'.taken
    rw [← hr.taken]
    by_cases hblocks : h.blocks = []
    · have hinit : ∃ s₁, s.initHeap = some s₁ ∧ s₁.taken = s.taken ++ [page] := by
        rw [MemoryState.initHeap, if_pos (hr.blocks.eq_zero_iff.2 hblocks), halloc]
        exact ⟨_, rfl, rfl⟩
      obtain ⟨s₁, hinit, htaken⟩ := hinit
      exact htaken ▸ malloc_taken_of_initHeap hinit hpos hle hmalloc
    · rw [malloc_eq_takeFreshPage hr hpos hle hblocks hno hwf.length_lt, MemoryState.takeFreshPage,
        halloc] at hmalloc
      rw [← (Prod.mk.inj (Option.some.inj hmalloc)).2]

end Malloc

/-! ### `free` -/

section Free

variable {s : MemoryState} {h : BlockHeap}

theorem free_zero (s : MemoryState) : s.free 0 = some s := if_pos rfl

/-- Setting the flag in memory marks the block in the list. -/
theorem linked_mark (hr : Represents s h) (hwf : h.WellFormed) {b : Block} (hb : b ∈ h.blocks) :
    Linked (Header.setIsFree s.mem b.addr 1) s.mallocHead (mark b.payload h.blocks) 0 := by
  obtain ⟨l₁, l₂, hblocks⟩ := List.append_of_mem hb
  obtain ⟨a, hl₁, rfl, hne, hsize, -, hl₂⟩ := linked_append.1 (hblocks ▸ hr.blocks)
  have hapart := List.pairwise_append.1 (hblocks ▸ hwf.headersApart)
  have hnext : Header.next (Header.setIsFree s.mem b.addr 1) b.addr = Header.next s.mem b.addr :=
    Header.get_set_of_ne (by decide)
  rw [hwf.mark_eq hblocks]
  refine linked_append.2 ⟨b.addr, hl₁.congr fun c hc ↦ Header.set_eqOn ?_, rfl, hne, ?_, ?_, ?_⟩
  · exact (hapart.2.2 c hc b List.mem_cons_self).symm
  · exact (Header.get_set_of_ne (by decide)).trans hsize
  · exact Header.get_set_self (by decide)
  · rw [hnext]
    exact hl₂.congr fun c hc ↦ Header.set_eqOn ((List.pairwise_cons.1 hapart.2.1).1 c hc)

/-- What the coalescing loop needs of the marked list, which has the headers of the old one. -/
theorem BlockHeap.WellFormed.mark_headers (hwf : h.WellFormed) (p : ℕ) :
    (mark p h.blocks).Pairwise Block.HeadersApart ∧
      ((mark p h.blocks).map fun b ↦ sizeofHeader + b.size).sum < 2 ^ 64 ∧
      (mark p h.blocks).length < MemoryState.walkBound ∧
      headerRegion (mark p h.blocks) ⊆ headerRegion h.blocks := by
  have haddrs : (mark p h.blocks).map Block.addr = h.blocks.map Block.addr :=
    map_mark fun _ ↦ rfl
  have hsizes : (mark p h.blocks).map (fun b ↦ sizeofHeader + b.size) =
      h.blocks.map fun b ↦ sizeofHeader + b.size := map_mark fun _ ↦ rfl
  refine ⟨?_, hsizes ▸ hwf.sum_lt, ?_, region_subset_iff.2 fun c hc ↦ ?_⟩
  · have hapart : (h.blocks.map Block.addr).Pairwise
        fun x y ↦ Disjoint (Header.bytes x) (Header.bytes y) :=
      List.pairwise_map.2 hwf.headersApart
    rw [← haddrs, List.pairwise_map] at hapart
    exact hapart
  · rw [mark, List.length_map]
    exact hwf.length_lt
  · obtain ⟨b, hb, haddr, -⟩ := mem_mark hc
    rw [haddr]
    exact subset_headerRegion hb

/-- **`free` of a block in use coalesces the block list.** It returns, and it changes no payload in
use. -/
theorem free_refines (hr : Represents s h) (hwf : h.WellFormed) {b : Block} (hb : b ∈ h.used) :
    ∃ s', s.free b.payload = some s' ∧ Represents s' (h.free b.payload) ∧
      ∀ c ∈ h.used, Set.EqOn s'.mem s.mem c.payloadRegion := by
  obtain ⟨hb, hused⟩ := mem_used.1 hb
  obtain ⟨hpos, hstop⟩ := hwf.block_bounds hb
  have hne : b.payload ≠ 0 := by
    rw [Block.payload]
    omega
  have hrange : (b.payload < phyToVirt s.kernelHeapStart ∨
      phyToVirt s.kernelHeapEnd ≤ b.payload) ↔ ¬h.Accepts b.payload := by
    rw [hr.rangeStart, hr.rangeEnd, Accepts]
    omega
  rw [MemoryState.free, if_neg hne, BlockHeap.free]
  by_cases haccept : h.Accepts b.payload
  case neg =>
    rw [if_pos (hrange.2 haccept), if_neg haccept]
    exact ⟨s, rfl, hr, fun _ _ _ _ ↦ rfl⟩
  case pos =>
    have hheader : u64 (b.payload + (2 ^ 64 - sizeofHeader)) = b.addr := by
      simp only [Block.stop, Block.payload, sizeofHeader, u64] at hstop ⊢
      omega
    have hsize : Header.size s.mem b.addr = b.size := by
      obtain ⟨l₁, l₂, hblocks⟩ := List.append_of_mem hb
      obtain ⟨a, -, -, -, hsize, -⟩ := linked_append.1 (hblocks ▸ hr.blocks)
      exact hsize
    have hsizeMarked : Header.size (Header.setIsFree s.mem b.addr 1) b.addr = b.size :=
      (Header.get_set_of_ne (by decide)).trans hsize
    obtain ⟨hapart, hsum, hlength, hregion⟩ := hwf.mark_headers b.payload
    obtain ⟨m', hloop, hlinked, hframe⟩ :=
      mergeLoop_coalesce (linked_mark hr hwf hb) hapart hsum hlength
    rw [if_neg fun h ↦ hrange.1 h haccept, if_pos haccept]
    simp only [hheader, hsize, if_neg (Nat.not_lt.2 (hwf.used_le b hb hused)), hsizeMarked, hloop]
    refine ⟨_, rfl, { hr with blocks := hlinked, freed := ?_ }, fun c hc ↦ ?_⟩
    · rw [hwf.sizeAt_eq hb, hr.freed]
    · have hpayload := hwf.headerRegion_disjoint_payload (mem_used.1 hc).1
      have hbytes := Set.disjoint_of_subset_left (subset_headerRegion hb) hpayload
      exact (hframe _ (Set.disjoint_of_subset_left hregion hpayload)).trans
        (Header.set_eqOn hbytes)

end Free

end LightNight
