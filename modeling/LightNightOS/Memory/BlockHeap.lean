import LightNightOS.Foundation.Intervals
import LightNightOS.Memory.Layout
import Mathlib.Tactic.NormNum

/-!
# The heap as a list of blocks

The abstract model of `malloc` and `free`: what the allocator is *for*, stated without pointers. A
heap is the list of its blocks in list order, the pages it has taken and the pages it may still
take; `malloc` is first fit with splitting, `free` marks a block and coalesces the whole list.
`HeapRefinement` shows that the pointer code of `memory.c` behaves exactly like this.

`WellFormed` is the invariant that needs no assumption on where the pages lie: the blocks are
pairwise disjoint, each lies inside the pages taken, and sizes and addresses are multiples of 8. It
survives every `malloc` (`wellFormed_malloc`). It survives a `free` only if no two free neighbours
have a hole between them (`HolesGuarded`, `wellFormed_free`), because the coalescing pass adds up
sizes without looking at addresses.

On consecutive pages there are no holes: then the blocks tile the pages taken (`Tiled`), which both
operations keep without further assumption.
-/

namespace LightNight

open Interval

/-! ### Blocks

A block has a header of 24 bytes and a payload behind it. It is carved in two only where more than
56 bytes are left behind the request; otherwise the request gets all of it. -/

/-- `sizeof(struct malloc_header)` -/
def sizeofHeader : ℕ := 24

/-- The largest request `malloc` serves: `PAGE_2M_SIZE - sizeof(struct malloc_header) - 128`. -/
def maxAllowed : ℕ := page2MSize - sizeofHeader - 128

theorem maxAllowed_eq : maxAllowed = 2097000 := rfl

/-- `(size + 7) & ~7` -/
def roundUp8 (size : ℕ) : ℕ := u64 (size + 7) &&& lowMask 3

/-- A block of the heap list: a header at `addr` followed by `size` bytes of payload. -/
structure Block where
  addr : ℕ
  size : ℕ
  isFree : Bool
  deriving DecidableEq, Repr

namespace Block

/-- The pointer `malloc` returns for the block. -/
def payload (b : Block) : ℕ := b.addr + sizeofHeader

/-- The first address after the block. -/
def stop (b : Block) : ℕ := b.addr + sizeofHeader + b.size

/-- The addresses of the block, header included. -/
def extent (b : Block) : Set ℕ := Set.Ico b.addr b.stop

/-- Two blocks merged by `free`: the left one's header over both. -/
def merge (a b : Block) : Block :=
  { a with size := a.size + sizeofHeader + b.size }

/-- `malloc` may use the block for a request of rounded size `size`. -/
def Fits (b : Block) (size : ℕ) : Prop :=
  b.isFree = true ∧ size + sizeofHeader ≤ b.size

instance (b : Block) (size : ℕ) : Decidable (b.Fits size) :=
  inferInstanceAs (Decidable (_ ∧ _))

/-- The block after `malloc` has taken it for a request of rounded size `size`: split when more than
a header and 8 bytes would be left over, kept whole otherwise. -/
def carve (b : Block) (size : ℕ) : List Block :=
  if size + sizeofHeader + sizeofHeader + 8 < b.size then
    [⟨b.addr, size, false⟩,
      ⟨b.addr + (size + sizeofHeader), b.size - (size + sizeofHeader), true⟩]
  else
    [⟨b.addr, b.size, false⟩]

/-- Both blocks are free, so `free`'s pass merges them when they are neighbours. -/
def bothFree (a b : Block) : Bool := a.isFree && b.isFree

theorem addr_lt_stop (b : Block) : b.addr < b.stop := by
  rw [stop, sizeofHeader]
  omega

theorem payload_ne_zero (b : Block) : b.payload ≠ 0 :=
  Nat.ne_of_gt (Nat.lt_add_left b.addr (by decide : 0 < sizeofHeader))

/-- A block used by `malloc` for a fitting request tiles the block it was carved from. -/
theorem tiles_carve {b : Block} {size : ℕ} (h : size + sizeofHeader ≤ b.size) :
    Tiles addr stop b.addr (b.carve size) b.stop := by
  rw [carve]
  split
  · simp only [tiles_cons, tiles_nil, stop, sizeofHeader, true_and] at h ⊢
    omega
  · simp [stop]

theorem addr_le_stop_of_mem {l : List Block} : ∀ b ∈ l, b.addr ≤ b.stop :=
  fun b _ ↦ b.addr_lt_stop.le

theorem region_carve {b : Block} {size : ℕ} (h : size + sizeofHeader ≤ b.size) :
    region extent (b.carve size) = b.extent :=
  (tiles_carve h).region_eq addr_le_stop_of_mem

end Block

/-! ### The heap and its operations -/

/-- A heap: its blocks in list order, the virtual addresses of the pages taken so far and of the
pages `alloc_page` can still hand out, the allocation counters, and the range of pointers that
`free` accepts. -/
structure BlockHeap where
  blocks : List Block
  taken : List ℕ
  supply : List ℕ
  allocated : ℕ
  freed : ℕ
  rangeStart : ℕ
  rangeEnd : ℕ
  deriving DecidableEq, Repr

namespace BlockHeap

/-- First fit: carve the first free block that holds the request. -/
def place (size : ℕ) : List Block → Option (ℕ × List Block)
  | [] => none
  | b :: l =>
    if b.Fits size then some (b.payload, b.carve size ++ l)
    else (place size l).map fun r ↦ (r.1, b :: r.2)

/-- The single free block of a fresh page. -/
def pageBlock (page : ℕ) : Block := ⟨page, page2MSize - sizeofHeader, true⟩

@[simp] theorem pageBlock_addr (page : ℕ) : (pageBlock page).addr = page := rfl

@[simp] theorem pageBlock_isFree (page : ℕ) : (pageBlock page).isFree = true := rfl

theorem pageBlock_size (page : ℕ) : (pageBlock page).size = 2097128 := by
  simp only [pageBlock, page2MSize_eq, sizeofHeader]

/-- The block fills its page. -/
theorem pageBlock_stop (page : ℕ) : (pageBlock page).stop = page + page2MSize := by
  have hsize := pageBlock_size page
  rw [Block.stop, pageBlock_addr, sizeofHeader, page2MSize_eq]
  omega

/-- Allocate: first fit, then a fresh page, then failure. -/
def malloc (h : BlockHeap) (n : ℕ) : ℕ × BlockHeap :=
  if n = 0 ∨ maxAllowed < n then (0, h)
  else
    match place (roundUp8 n) h.blocks with
    | some (p, blocks) =>
      (p, { h with blocks, allocated := u64 (h.allocated + roundUp8 n) })
    | none =>
      match h.supply with
      | [] => (0, h)
      | page :: supply =>
        (page + sizeofHeader,
          { h with
            blocks := h.blocks ++ (pageBlock page).carve (roundUp8 n)
            taken := h.taken ++ [page]
            supply
            allocated := u64 (h.allocated + roundUp8 n) })

/-- Mark the block with payload `p` free. -/
def mark (p : ℕ) (l : List Block) : List Block :=
  l.map fun b ↦ if b.payload = p then { b with isFree := true } else b

/-- The size field `free` reads in front of `p`. -/
def sizeAt (p : ℕ) (l : List Block) : ℕ :=
  ((l.find? fun b ↦ b.payload = p).map Block.size).getD 0

/-- `free` accepts the pointer. -/
def Accepts (h : BlockHeap) (p : ℕ) : Prop := h.rangeStart ≤ p ∧ p < h.rangeEnd

instance (h : BlockHeap) (p : ℕ) : Decidable (h.Accepts p) :=
  inferInstanceAs (Decidable (_ ∧ _))

/-- Release the block with payload `p`, then coalesce. -/
def free (h : BlockHeap) (p : ℕ) : BlockHeap :=
  if h.Accepts p then
    { h with
      blocks := coalesce Block.bothFree Block.merge (mark p h.blocks)
      freed := u64 (h.freed + sizeAt p h.blocks) }
  else h

/-! ### Sizes -/

theorem roundUp8_eq {n : ℕ} (h : n ≤ maxAllowed) : roundUp8 n = (n + 7) / 8 * 8 := by
  have hlt : n + 7 < 2 ^ 64 := by
    rw [maxAllowed_eq] at h
    omega
  rw [roundUp8, u64_of_lt hlt, and_lowMask hlt (by decide)]
  norm_num

/-- What a rounded request is good for: at least the request, a multiple of 8, small enough for a
fresh page. -/
theorem roundUp8_spec {n : ℕ} (h : n ≤ maxAllowed) :
    n ≤ roundUp8 n ∧ 8 ∣ roundUp8 n ∧ roundUp8 n + 2 * sizeofHeader + 104 ≤ page2MSize := by
  rw [roundUp8_eq h]
  rw [maxAllowed_eq] at h
  rw [page2MSize_eq, sizeofHeader]
  omega

/-- A fresh page has room for every request that is not refused. -/
theorem pageBlock_fits {n page : ℕ} (h : n ≤ maxAllowed) :
    (pageBlock page).Fits (roundUp8 n) := by
  have hspec := (roundUp8_spec h).2.2
  refine ⟨rfl, ?_⟩
  rw [pageBlock_size]
  rw [page2MSize_eq, sizeofHeader] at hspec
  rw [sizeofHeader]
  omega

/-! ### What the operations can do

`malloc_cases` lists the outcomes of `malloc`: it refuses, it places the request in a block of the
list, or it takes a page. Every invariant of the heap is proved from these three cases. -/

/-- **First fit, read backwards**: where the request was placed. -/
theorem place_eq_some {size p : ℕ} {l l' : List Block} (h : place size l = some (p, l')) :
    ∃ l₁ b l₂, l = l₁ ++ b :: l₂ ∧ (∀ c ∈ l₁, ¬c.Fits size) ∧ b.Fits size ∧ p = b.payload ∧
      l' = l₁ ++ b.carve size ++ l₂ := by
  induction l generalizing l' with
  | nil => simp [place] at h
  | cons b l ih =>
    rw [place] at h
    split at h
    case isTrue hfits =>
      obtain ⟨rfl, rfl⟩ := Prod.mk.inj (Option.some.inj h)
      exact ⟨[], b, l, rfl, by simp, hfits, rfl, rfl⟩
    case isFalse hno =>
      obtain ⟨⟨q, m⟩, hplace, heq⟩ := Option.map_eq_some_iff.1 h
      obtain ⟨rfl, rfl⟩ := Prod.mk.inj heq
      obtain ⟨l₁, c, l₂, rfl, hl₁, hfits, rfl, rfl⟩ := ih hplace
      refine ⟨b :: l₁, c, l₂, rfl, ?_, hfits, rfl, rfl⟩
      intro d hd
      rcases List.mem_cons.1 hd with rfl | hd
      exacts [hno, hl₁ d hd]

theorem place_eq_none {size : ℕ} {l : List Block} (h : place size l = none) :
    ∀ b ∈ l, ¬b.Fits size := by
  induction l with
  | nil => simp
  | cons b l ih =>
    rw [place] at h
    split at h
    case isTrue => cases h
    case isFalse hno =>
      intro c hc
      rcases List.mem_cons.1 hc with rfl | hc
      exacts [hno, ih (Option.map_eq_none_iff.1 h) c hc]

/-- **Everything `malloc` can do**: fail and change nothing, carve the first block that fits, or
carve a fresh page behind the list. -/
theorem malloc_cases (h : BlockHeap) (n : ℕ) :
    (h.malloc n = (0, h) ∧ (n = 0 ∨ maxAllowed < n ∨
      (∀ b ∈ h.blocks, ¬b.Fits (roundUp8 n)) ∧ h.supply = [])) ∨
    (0 < n ∧ n ≤ maxAllowed ∧ ∃ l₁ b l₂, h.blocks = l₁ ++ b :: l₂ ∧
      (∀ c ∈ l₁, ¬c.Fits (roundUp8 n)) ∧ b.Fits (roundUp8 n) ∧
      h.malloc n = (b.payload, { h with
        blocks := l₁ ++ b.carve (roundUp8 n) ++ l₂
        allocated := u64 (h.allocated + roundUp8 n) })) ∨
    (0 < n ∧ n ≤ maxAllowed ∧ (∀ b ∈ h.blocks, ¬b.Fits (roundUp8 n)) ∧
      ∃ page supply, h.supply = page :: supply ∧
      h.malloc n = (page + sizeofHeader, { h with
        blocks := h.blocks ++ (pageBlock page).carve (roundUp8 n)
        taken := h.taken ++ [page]
        supply
        allocated := u64 (h.allocated + roundUp8 n) })) := by
  by_cases hn : n = 0 ∨ maxAllowed < n
  · refine Or.inl ⟨if_pos hn, ?_⟩
    rcases hn with hn | hn
    exacts [Or.inl hn, Or.inr (Or.inl hn)]
  · have hpos : 0 < n := by omega
    have hle : n ≤ maxAllowed := by omega
    rcases hplace : place (roundUp8 n) h.blocks with - | ⟨p, l'⟩
    · have hno := place_eq_none hplace
      rcases hsupply : h.supply with - | ⟨page, supply⟩
      · exact Or.inl ⟨by simp [malloc, hn, hplace, hsupply], Or.inr (Or.inr ⟨hno, rfl⟩)⟩
      · exact Or.inr (Or.inr ⟨hpos, hle, hno, page, supply, rfl,
          by simp [malloc, hn, hplace, hsupply]⟩)
    · obtain ⟨l₁, b, l₂, hl, hl₁, hfits, rfl, rfl⟩ := place_eq_some hplace
      exact Or.inr (Or.inl ⟨hpos, hle, l₁, b, l₂, hl, hl₁, hfits, by simp [malloc, hn, hplace]⟩)

end BlockHeap

end LightNight
