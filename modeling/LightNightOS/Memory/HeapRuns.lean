import LightNightOS.Foundation.Runs
import LightNightOS.Memory.PageInit

/-!
# Runs of `malloc` and `free`

A program using the heap, as a step relation: it calls `malloc` with any size, `free` on `NULL` or
on a pointer it has not freed yet, and writes anywhere except on heap bytes that are not its own.
The pointers handed out and not yet freed are recorded as `live`, with the size requested.

The invariant behind every run is `Held`: the memory represents a well-formed block heap whose
blocks in use serve the live pointers. One lemma for each kind of step says how the block heap
moves (`BlockHeap.after`).

In every run in which the pages handed out are consecutive the blocks tile these pages, so that the
live payloads are apart from each other and from every header, aligned, and large enough
(`heap_safe`), and no two neighbours are free (`heapInvariant_run`).

* `Held.malloc`, `Held.free`, `Held.write` — one step;
* `HeapInvariant.step` — one step, where the pages handed out are consecutive;
* `Protects` — what a caller may rely on, said of the live pointers alone;
* `initPage_fresh`, `initPage_rangeCovers` — that `init_page` leaves memory from which runs can
  begin.
-/

namespace LightNight

open Interval BlockHeap Transition

/-! ### Steps

Writes are steps of their own. They may go anywhere but to heap bytes that the program was not
given, so that what a program does with its payloads is part of every run. -/

/-- A program's view of the heap: the memory, and the pointers it holds with the sizes it asked
for. -/
structure HeapUse where
  state : MemoryState
  live : List (ℕ × ℕ)

/-- What a program does to the heap. -/
inductive HeapCall
  | malloc (n : ℕ)
  | free (p : ℕ)
  | write
  deriving DecidableEq, Repr

/-- One step of a program. -/
inductive HeapStep : HeapUse → HeapCall → HeapUse → Prop
  | malloc {u : HeapUse} {n p : ℕ} {s : MemoryState} :
      u.state.malloc n = some (p, s) →
      HeapStep u (.malloc n) ⟨s, if p = 0 then u.live else (p, n) :: u.live⟩
  | free {u : HeapUse} {p : ℕ} {s : MemoryState} :
      p = 0 ∨ p ∈ u.live.map Prod.fst → u.state.free p = some s →
      HeapStep u (.free p) ⟨s, u.live.filter fun a ↦ a.1 ≠ p⟩
  /-- The program writes: outside the pages of the heap, and on the bytes it asked for. -/
  | write {u : HeapUse} {m : ByteMemory} :
      (∀ x ∈ region pageRegion u.state.taken,
        (∀ a ∈ u.live, x ∉ Set.Ico a.1 (a.1 + a.2)) → m x = u.state.mem x) →
      HeapStep u .write ⟨{ u.state with mem := m }, u.live⟩

/-- How a step moves the block heap. -/
def BlockHeap.after (h : BlockHeap) : HeapCall → BlockHeap
  | .malloc n => (h.malloc n).2
  | .free p => if p = 0 then h else h.free p
  | .write => h

/-! ### The invariant -/

/-- The blocks in use serve the live pointers. -/
structure Serves (used : List Block) (live : List (ℕ × ℕ)) : Prop where
  distinct : live.Pairwise fun a a' ↦ a.1 ≠ a'.1
  positive : ∀ a ∈ live, 0 < a.2
  block : ∀ a ∈ live, ∃ b ∈ used, b.payload = a.1 ∧ a.2 ≤ b.size

/-- The state holds a well-formed block heap that serves the program. -/
structure Held (u : HeapUse) (h : BlockHeap) : Prop where
  represents : Represents u.state h
  wellFormed : h.WellFormed
  serves : Serves h.used u.live

/-- The empty heap over a free list. -/
def emptyHeap (s : MemoryState) (supply : List ℕ) : BlockHeap where
  blocks := []
  taken := []
  supply := supply
  allocated := s.mallocTotalAllocated
  freed := s.mallocTotalFreed
  rangeStart := phyToVirt s.kernelHeapStart
  rangeEnd := phyToVirt s.kernelHeapEnd

/-- A heap that has not been used yet, with any free list. -/
structure Fresh (s : MemoryState) (supply : List ℕ) : Prop where
  supplies : Supplies s.pages s.freePagesList supply
  mallocHead : s.mallocHead = 0
  taken : s.taken = []

/-- The memory that `init_page` leaves holds an empty heap. -/
theorem Fresh.held {s : MemoryState} {supply : List ℕ} (hs : Fresh s supply) :
    Held ⟨s, []⟩ (emptyHeap s supply) where
  represents := ⟨hs.mallocHead, hs.supplies, hs.taken, rfl, rfl, rfl, rfl⟩
  wellFormed := ⟨⟨List.Pairwise.nil, by simp [emptyHeap]⟩, List.Pairwise.nil,
    by simp [region, emptyHeap], by simp [emptyHeap], by simp [emptyHeap]⟩
  serves := ⟨List.Pairwise.nil, by simp, by simp⟩

/-- The heap `init_page` leaves is fresh. -/
theorem initPage_fresh {s : MemoryState} (hs : Uninitialised s) (entries : List E820) :
    Fresh (initPage entries s).2
      (if (initPage entries s).1 = .noRoom then [] else (usableFrames entries).map phyToVirt) :=
  have h := initPage_supplies hs entries
  ⟨h.1, h.2.1, h.2.2⟩

/-- A call of `malloc` that returns `NULL` changes nothing. -/
theorem malloc_eq_zero {h : BlockHeap} {n : ℕ} (hzero : (h.malloc n).1 = 0) :
    (h.malloc n).2 = h := by
  have hheader : sizeofHeader ≠ 0 := by decide
  rcases h.malloc_cases n with ⟨hfail, -⟩ | ⟨-, -, l₁, b, l₂, -, -, -, hplaced⟩ |
    ⟨-, -, -, page, supply, -, hpage⟩
  · rw [hfail]
  · rw [hplaced] at hzero
    have hpayload : b.addr + sizeofHeader = 0 := hzero
    omega
  · rw [hpage] at hzero
    have hpayload : page + sizeofHeader = 0 := hzero
    omega

/-- A call that succeeds was asked for something. -/
theorem malloc_pos {h : BlockHeap} {n : ℕ} (hp : (h.malloc n).1 ≠ 0) : 0 < n := by
  refine Nat.pos_of_ne_zero fun hzero ↦ hp ?_
  rw [BlockHeap.malloc, if_pos (Or.inl hzero)]

/-- Two blocks in use with one payload are in one place of the list. -/
theorem BlockHeap.WellFormed.used_payloads {h : BlockHeap} (hwf : h.WellFormed) :
    h.used.Pairwise fun a b ↦ a.payload ≠ b.payload := by
  refine (hwf.disjoint.sublist List.filter_sublist).imp fun {a b} hab heq ↦ ?_
  have haddr : a.addr = b.addr := by
    simp only [Block.payload] at heq
    omega
  exact Set.disjoint_left.1 hab ⟨le_rfl, a.addr_lt_stop⟩ ⟨haddr.ge, haddr ▸ b.addr_lt_stop⟩

/-- After `malloc` the new block serves the new pointer. -/
theorem serves_malloc {h : BlockHeap} {live : List (ℕ × ℕ)} {n : ℕ} (hs : Serves h.used live)
    (hwf : (h.malloc n).2.WellFormed) :
    Serves (h.malloc n).2.used
      (if (h.malloc n).1 = 0 then live else ((h.malloc n).1, n) :: live) := by
  split
  case isTrue hzero => rwa [malloc_eq_zero hzero]
  case isFalse hp =>
    obtain ⟨u₁, b, u₂, hused, hused', hpayload, hsize⟩ :=
      @used_malloc h (h.malloc n).2 n (h.malloc n).1 rfl hp
    have hapart := hwf.used_payloads
    rw [hused'] at hapart ⊢
    have hpair := List.pairwise_append.1 hapart
    have hold : ∀ c ∈ h.used, c ∈ u₁ ++ b :: u₂ ∧ c.payload ≠ b.payload := by
      intro c hc
      rw [hused] at hc
      rcases List.mem_append.1 hc with hc | hc
      · exact ⟨by simp [hc], hpair.2.2 c hc b List.mem_cons_self⟩
      · exact ⟨by simp [hc], ((List.pairwise_cons.1 hpair.2.1).1 c hc).symm⟩
    refine ⟨List.pairwise_cons.2 ⟨fun a ha heq ↦ ?_, hs.distinct⟩,
      List.forall_mem_cons.2 ⟨malloc_pos hp, hs.positive⟩, fun a ha ↦ ?_⟩
    · obtain ⟨c, hc, hca, -⟩ := hs.block a ha
      exact (hold c hc).2 (hca.trans (heq.symm.trans hpayload.symm))
    · rcases List.mem_cons.1 ha with rfl | ha
      · exact ⟨b, by simp, hpayload, hsize⟩
      · obtain ⟨c, hc, hca, hle⟩ := hs.block a ha
        exact ⟨c, (hold c hc).1, hca, hle⟩

/-- After `free` the other blocks serve the other pointers. -/
theorem serves_free {h : BlockHeap} {live : List (ℕ × ℕ)} {p : ℕ} (hs : Serves h.used live) :
    Serves (h.free p).used (live.filter fun a ↦ a.1 ≠ p) := by
  refine ⟨hs.distinct.sublist List.filter_sublist,
    fun a ha ↦ hs.positive a (List.mem_filter.1 ha).1, fun a ha ↦ ?_⟩
  obtain ⟨ha, hp⟩ := List.mem_filter.1 ha
  obtain ⟨b, hb, hba, hle⟩ := hs.block a ha
  refine ⟨b, ?_, hba, hle⟩
  by_cases haccept : h.Accepts p
  · rw [used_free haccept]
    refine List.mem_filter.2 ⟨hb, ?_⟩
    rwa [hba]
  · rwa [BlockHeap.free, if_neg haccept]

/-! ### One step -/

section Step

variable {u u' : HeapUse} {h : BlockHeap} {a : HeapCall}

theorem free_taken {s s' : MemoryState} {p : ℕ} (hfree : s.free p = some s') :
    s'.taken = s.taken := by
  rw [MemoryState.free] at hfree
  split at hfree
  · rw [Option.some.inj hfree]
  split at hfree
  · rw [Option.some.inj hfree]
  simp only at hfree
  split at hfree
  · rw [Option.some.inj hfree]
  split at hfree
  · cases hfree
  · rw [← Option.some.inj hfree]

/-- Pages are handed out and never taken back. -/
theorem HeapStep.taken (hstep : HeapStep u a u') : u.state.taken <+: u'.state.taken := by
  cases hstep with
  | malloc hmalloc => exact malloc_taken hmalloc
  | free _ hfree => rw [free_taken hfree]
  | write _ => exact List.prefix_rfl

theorem Held.malloc {n : ℕ} (hu : Held u h) (hstep : HeapStep u (.malloc n) u')
    (hpages : PagesValid u'.state.taken) : Held u' (h.after (.malloc n)) := by
  cases hstep with
  | malloc hmalloc =>
    have hvalid : PagesValid (h.malloc n).2.taken :=
      hpages.sublist (malloc_taken_extends hu.represents hu.wellFormed hmalloc).sublist
    obtain ⟨s', hmalloc', hr, -⟩ := malloc_refines hu.represents hu.wellFormed hvalid
    obtain ⟨rfl, rfl⟩ := Prod.mk.inj (Option.some.inj (hmalloc.symm.trans hmalloc'))
    have hwf := wellFormed_malloc hu.wellFormed hvalid
    exact ⟨hr, hwf, serves_malloc hu.serves hwf⟩

theorem Held.free {p : ℕ} (hu : Held u h) (hstep : HeapStep u (.free p) u')
    (hguard : p ≠ 0 → h.Accepts p → HolesGuarded (mark p h.blocks)) :
    Held u' (h.after (.free p)) := by
  cases hstep with
  | free hp hfree =>
    by_cases hzero : p = 0
    · rw [hzero, free_zero] at hfree
      rw [← Option.some.inj hfree, BlockHeap.after, if_pos hzero]
      exact ⟨hu.represents, hu.wellFormed, hu.serves.distinct.sublist List.filter_sublist,
        fun a ha ↦ hu.serves.positive a (List.mem_filter.1 ha).1,
        fun a ha ↦ hu.serves.block a (List.mem_filter.1 ha).1⟩
    · obtain ⟨a, ha, rfl⟩ := List.mem_map.1 (hp.resolve_left hzero)
      obtain ⟨b, hb, hba, -⟩ := hu.serves.block a ha
      obtain ⟨s', hfree', hr, -⟩ := free_refines hu.represents hu.wellFormed hb
      rw [hba] at hfree' hr
      obtain rfl := Option.some.inj (hfree.symm.trans hfree')
      rw [BlockHeap.after, if_neg hzero]
      exact ⟨hr, wellFormed_free hu.wellFormed (hguard hzero), serves_free hu.serves⟩

/-- The bytes a program may write are not headers. -/
theorem Held.write (hu : Held u h) (hstep : HeapStep u .write u') : Held u' h := by
  cases hstep with
  | @write m hm =>
    refine ⟨hu.represents.of_eqOn fun x hx ↦ hm x ?_ fun a ha hxa ↦ ?_, hu.wellFormed, hu.serves⟩
    · obtain ⟨b, hb, hxb⟩ := Set.mem_iUnion₂.1 hx
      rw [hu.represents.taken]
      exact hu.wellFormed.inside (subset_region hb (b.headerBytes_subset hxb))
    · obtain ⟨b, hb, hba, hle⟩ := hu.serves.block a ha
      refine Set.disjoint_left.1
        (hu.wellFormed.headerRegion_disjoint_payload (mem_used.1 hb).1) hx ?_
      have hlo := hxa.1
      have hhi := hxa.2
      simp only [Block.payloadRegion, Block.stop, Block.payload] at hba ⊢
      exact ⟨by omega, by omega⟩

/-- In a held heap every call of `malloc` returns. -/
theorem Held.exists_malloc (hu : Held u h) {n : ℕ} (hpages : PagesValid (h.malloc n).2.taken) :
    ∃ u', HeapStep u (.malloc n) u' ∧ Held u' (h.after (.malloc n)) ∧
      u'.live = if (h.malloc n).1 = 0 then u.live else ((h.malloc n).1, n) :: u.live := by
  obtain ⟨s', hmalloc, hr, -⟩ := malloc_refines hu.represents hu.wellFormed hpages
  have hwf := wellFormed_malloc hu.wellFormed hpages
  exact ⟨_, .malloc hmalloc, ⟨hr, hwf, serves_malloc hu.serves hwf⟩, rfl⟩

/-- In a held heap every call of `free` on a live pointer returns. -/
theorem Held.exists_free (hu : Held u h) {p : ℕ} (hp : p ∈ u.live.map Prod.fst) :
    ∃ s', HeapStep u (.free p) ⟨s', u.live.filter fun a ↦ a.1 ≠ p⟩ ∧
      Represents s' (h.free p) := by
  obtain ⟨a, ha, rfl⟩ := List.mem_map.1 hp
  obtain ⟨b, hb, hba, -⟩ := hu.serves.block a ha
  obtain ⟨s', hfree, hr, -⟩ := free_refines hu.represents hu.wellFormed hb
  rw [hba] at hfree hr
  exact ⟨s', .free (Or.inr (List.mem_map_of_mem ha)) hfree, hr⟩

end Step

/-! ### Consecutive pages -/

/-- The pages follow each other from `base` on, a non-null 8-aligned address, and end within the
address space. -/
structure Consecutive (base : ℕ) (pages : List ℕ) : Prop where
  pos : 0 < base
  aligned : 8 ∣ base
  pagesFrom : PagesFrom base pages (base + pages.length * page2MSize)
  stop_le : base + pages.length * page2MSize ≤ 2 ^ 64

theorem Consecutive.valid {base : ℕ} {pages : List ℕ} (h : Consecutive base pages) :
    PagesValid pages :=
  h.pagesFrom.valid h.pos h.aligned h.stop_le

/-- The pages handed out earlier were consecutive as well. -/
theorem Consecutive.of_prefix {base : ℕ} {pages pages' : List ℕ} (h : Consecutive base pages')
    (hfront : pages <+: pages') : Consecutive base pages := by
  obtain ⟨rest, rfl⟩ := hfront
  obtain ⟨c, hc, -⟩ := (tiles_append _ _).1 h.pagesFrom
  have hstop : c = base + pages.length * page2MSize := PagesFrom.stop_eq hc
  refine ⟨h.pos, h.aligned, hstop ▸ hc, ?_⟩
  have hle := h.stop_le
  rw [List.length_append, Nat.add_mul] at hle
  omega

/-- The invariant of runs on consecutive pages. -/
structure HeapInvariant (base : ℕ) (u : HeapUse) (h : BlockHeap) : Prop extends Held u h where
  tiled : Tiled base h
  noFreeNeighbours : h.NoFreeNeighbours

theorem Fresh.heapInvariant {s : MemoryState} {supply : List ℕ} (hs : Fresh s supply)
    (base : ℕ) : HeapInvariant base ⟨s, []⟩ (emptyHeap s supply) where
  toHeld := hs.held
  tiled := ⟨base, rfl, rfl⟩
  noFreeNeighbours := List.isChain_nil

/-- **One step on consecutive pages** keeps the invariant, and moves the block heap as `after`
says. -/
theorem HeapInvariant.step {base : ℕ} {u u' : HeapUse} {h : BlockHeap} {a : HeapCall}
    (hu : HeapInvariant base u h) (hstep : HeapStep u a u')
    (hpages : Consecutive base u'.state.taken) : HeapInvariant base u' (h.after a) := by
  cases a with
  | malloc n =>
    have hheld := hu.toHeld.malloc hstep hpages.valid
    have htaken : (h.malloc n).2.taken = u'.state.taken := hheld.represents.taken.symm
    exact ⟨hheld, tiled_malloc hu.tiled (htaken ▸ hpages.pagesFrom),
      noFreeNeighbours_malloc hu.noFreeNeighbours n⟩
  | free p =>
    refine ⟨hu.toHeld.free hstep fun _ _ ↦ hu.tiled.holesGuarded p, ?_, ?_⟩
    · rw [BlockHeap.after]
      split
      exacts [hu.tiled, tiled_free hu.tiled p]
    · rw [BlockHeap.after]
      split
      exacts [hu.noFreeNeighbours, noFreeNeighbours_free hu.noFreeNeighbours p]
  | write => exact ⟨hu.toHeld.write hstep, hu.tiled, hu.noFreeNeighbours⟩

/-- The condition on the pages can be checked at the end of a run. -/
theorem Consecutive.back {base : ℕ} {u u' : HeapUse} {a : HeapCall} (hstep : HeapStep u a u')
    (h : Consecutive base u'.state.taken) : Consecutive base u.state.taken :=
  h.of_prefix hstep.taken

/-! ### Every run on consecutive pages -/

/-- What the blocks of the heap do for a program: each live pointer is the 8-aligned payload of a
block in use with room for the request, and payloads overlap neither each other nor a header. -/
structure Protects (blocks : List Block) (live : List (ℕ × ℕ)) : Prop where
  block : ∀ a ∈ live, ∃ b ∈ blocks, b.isFree = false ∧ b.payload = a.1 ∧ 8 ∣ a.1 ∧ a.2 ≤ b.size
  payloads : live.Pairwise fun a a' ↦ ∀ b ∈ blocks, ∀ b' ∈ blocks,
    b.payload = a.1 → b'.payload = a'.1 → Disjoint b.payloadRegion b'.payloadRegion
  headers : ∀ a ∈ live, ∀ b ∈ blocks, b.payload = a.1 →
    Disjoint (headerRegion blocks) b.payloadRegion

/-- Blocks in use that serve the live pointers protect them. -/
theorem Held.protects {u : HeapUse} {h : BlockHeap} (hu : Held u h) :
    Protects h.blocks u.live := by
  refine ⟨fun a ha ↦ ?_, hu.serves.distinct.imp fun {a a'} hne b hb b' hb' hba hba' ↦ ?_,
    fun a _ b hb _ ↦ hu.wellFormed.headerRegion_disjoint_payload hb⟩
  · obtain ⟨b, hb, hba, hle⟩ := hu.serves.block a ha
    obtain ⟨hb, hused⟩ := mem_used.1 hb
    have haligned := (hu.wellFormed.aligned b hb).1
    refine ⟨b, hb, hused, hba, ?_, hle⟩
    rw [← hba, Block.payload]
    exact Nat.dvd_add haligned (by decide)
  · refine Set.disjoint_left.2 fun x hx hx' ↦ hne ?_
    have hbb := hu.wellFormed.eq_of_mem_extent hb hb' (b.payloadRegion_subset hx)
      (b'.payloadRegion_subset hx')
    rw [← hba, ← hba', hbb]

/-- **The heap on one region of memory.** After any run of `malloc`, `free` and writes from a fresh
heap, in which the pages handed out are consecutive, the blocks on the list tile these pages. So the
live payloads are apart from each other and from the headers, aligned, and large enough. -/
theorem heap_safe {s₀ : MemoryState} {supply : List ℕ} (hs : Fresh s₀ supply)
    {calls : List HeapCall} {u : HeapUse} (hrun : Run HeapStep ⟨s₀, []⟩ calls u) {base : ℕ}
    (hpages : Consecutive base u.state.taken) :
    ∃ blocks, Linked u.state.mem u.state.mallocHead blocks 0 ∧
      Tiles Block.addr Block.stop base blocks
        (base + u.state.taken.length * page2MSize) ∧
      Protects blocks u.live := by
  obtain ⟨h, hu⟩ := hrun.invariant_of_end (I := fun u ↦ ∃ h, HeapInvariant base u h)
    (Q := fun u ↦ Consecutive base u.state.taken) Consecutive.back
    (fun ⟨h, hu⟩ hstep hpages ↦ ⟨_, hu.step hstep hpages⟩) ⟨_, hs.heapInvariant base⟩ hpages
  refine ⟨h.blocks, hu.represents.blocks, ?_, hu.protects⟩
  rw [hu.represents.taken]
  exact hu.tiled.tiles

/-- A heap of two pages from `init_page`, for the runs below. -/
def smallMap : List E820 := [⟨0x180000, 0x480000, 1⟩]

theorem smallMap_supply : (if (initPage smallMap .zeroed).1 = .noRoom then [] else
    (usableFrames smallMap).map phyToVirt) = [0xffff800000200000, 0xffff800000400000] := by
  decide +kernel

/-- Two allocations on the small machine, from the same page. -/
theorem heap_safe_smallMap : ∃ u : HeapUse,
    u.live = [(0xffff800000200098, 50), (0xffff800000200018, 100)] ∧
    ∃ blocks, Linked u.state.mem u.state.mallocHead blocks 0 ∧
      Tiles Block.addr Block.stop 0xffff800000200000 blocks
        (0xffff800000200000 + u.state.taken.length * page2MSize) ∧
      Protects blocks u.live := by
  have hs := initPage_fresh uninitialised_zeroed smallMap
  rw [smallMap_supply] at hs
  have hpage : Consecutive 0xffff800000200000 [0xffff800000200000] :=
    ⟨by decide, by decide, ⟨rfl, rfl⟩, by decide⟩
  obtain ⟨u, hfirst, hu, hlive⟩ := hs.held.exists_malloc (n := 100) hpage.valid
  obtain ⟨v, hsecond, hv, hlive'⟩ := hu.exists_malloc (n := 50) hpage.valid
  have htaken : v.state.taken = [0xffff800000200000] := hv.represents.taken
  rw [hlive] at hlive'
  exact ⟨v, hlive', heap_safe hs ((Run.single hfirst).append (Run.single hsecond)) (htaken ▸ hpage)⟩

/-! ### Nothing is lost

A pointer that `free` rejects would stay in use for ever. Where the range covers the pages that does
not happen, and when nothing is live every block is free. -/

/-- `free` accepts the payloads on the pages of the heap. -/
structure RangeCovers (h : BlockHeap) : Prop where
  start : ∀ page rest, h.taken ++ h.supply = page :: rest → h.rangeStart = page
  stop : ∀ page ∈ h.taken ++ h.supply, page + page2MSize ≤ h.rangeEnd

/-- No step changes the pages of the heap, taken or not, or the range of `free`. -/
theorem BlockHeap.after_pages (h : BlockHeap) (a : HeapCall) :
    (h.after a).taken ++ (h.after a).supply = h.taken ++ h.supply ∧
      (h.after a).rangeStart = h.rangeStart ∧ (h.after a).rangeEnd = h.rangeEnd := by
  cases a with
  | malloc n =>
    rw [BlockHeap.after]
    rcases h.malloc_cases n with ⟨hfail, -⟩ | ⟨-, -, l₁, b, l₂, -, -, -, hplaced⟩ |
      ⟨-, -, -, page, supply, hsupply, hpage⟩
    · rw [hfail]
      exact ⟨rfl, rfl, rfl⟩
    · rw [hplaced]
      exact ⟨rfl, rfl, rfl⟩
    · rw [hpage]
      exact ⟨by simp [hsupply], rfl, rfl⟩
  | free p =>
    rw [BlockHeap.after, BlockHeap.free]
    split
    · exact ⟨rfl, rfl, rfl⟩
    split <;> exact ⟨rfl, rfl, rfl⟩
  | write => exact ⟨rfl, rfl, rfl⟩

theorem RangeCovers.after {h : BlockHeap} (hr : RangeCovers h) (a : HeapCall) :
    RangeCovers (h.after a) := by
  obtain ⟨hpages, hstart, hend⟩ := h.after_pages a
  constructor
  · rw [hpages, hstart]
    exact hr.start
  · rw [hpages, hend]
    exact hr.stop

/-- The pages end at the end of one of them. -/
theorem PagesFrom.exists_last {a b : ℕ} {pages : List ℕ} (h : PagesFrom a pages b) (hlt : a < b) :
    ∃ p ∈ pages, b = p + page2MSize := by
  induction pages generalizing a with
  | nil => exact absurd (show a = b from h) hlt.ne
  | cons p l ih =>
    obtain ⟨-, hl⟩ := h
    by_cases hstop : p + page2MSize = b
    · exact ⟨p, List.mem_cons_self, hstop.symm⟩
    · have hle : p + page2MSize ≤ b := hl.le le_add_page
      obtain ⟨q, hq, heq⟩ := ih hl (show p + page2MSize < b by omega)
      exact ⟨q, List.mem_cons_of_mem p hq, heq⟩

/-- The pointers to the blocks of a tiled heap are in the range of `free`. -/
theorem RangeCovers.accepts {h : BlockHeap} (hr : RangeCovers h) {base : ℕ} (ht : Tiled base h)
    {b : Block} (hb : b ∈ h.blocks) (hsize : 0 < b.size) : h.Accepts b.payload := by
  obtain ⟨mid, htaken, hblocks⟩ := ht
  obtain ⟨hlo, hhi⟩ := hblocks.bounds_of_mem Block.addr_le_stop_of_mem hb
  have hlt := b.addr_lt_stop
  obtain ⟨last, hlast, hmid⟩ := PagesFrom.exists_last htaken (by omega)
  have hend := hr.stop last (List.mem_append_left _ hlast)
  obtain ⟨page, rest, htakenCons⟩ := List.exists_cons_of_ne_nil (List.ne_nil_of_mem hlast)
  have hbase : page = base := by
    rw [htakenCons] at htaken
    exact htaken.1
  have hstart := hr.start page (rest ++ h.supply) (by simp [htakenCons])
  simp only [Accepts, Block.payload, Block.stop] at hhi ⊢
  omega

/-- Every block in use is live. -/
def Recorded (used : List Block) (live : List (ℕ × ℕ)) : Prop :=
  ∀ b ∈ used, b.payload ∈ live.map Prod.fst

/-- Fewer pointers, and the blocks that go with them. -/
theorem Recorded.filter {used : List Block} {live : List (ℕ × ℕ)} (h : Recorded used live) (p : ℕ) :
    Recorded (used.filter fun b ↦ b.payload ≠ p) (live.filter fun a ↦ a.1 ≠ p) := by
  intro b hb
  obtain ⟨hb, hne⟩ := List.mem_filter.1 hb
  obtain ⟨a, ha, hab⟩ := List.mem_map.1 (h b hb)
  refine List.mem_map.2 ⟨a, List.mem_filter.2 ⟨ha, ?_⟩, hab⟩
  rwa [hab]

/-- Where `free` accepts the pointer, the blocks in use are exactly the live ones. -/
theorem Held.recorded {u u' : HeapUse} {h : BlockHeap} {a : HeapCall} (hu : Held u h)
    (hrecorded : Recorded h.used u.live) (hstep : HeapStep u a u')
    (hpages : PagesValid u'.state.taken)
    (haccept : ∀ p, a = .free p → p ≠ 0 → p ∈ u.live.map Prod.fst → h.Accepts p) :
    Recorded (h.after a).used u'.live := by
  cases hstep with
  | @malloc n p s hmalloc =>
    have hvalid : PagesValid (h.malloc n).2.taken :=
      hpages.sublist (malloc_taken_extends hu.represents hu.wellFormed hmalloc).sublist
    obtain ⟨s', hmalloc', -, -⟩ := malloc_refines hu.represents hu.wellFormed hvalid
    obtain ⟨rfl, rfl⟩ := Prod.mk.inj (Option.some.inj (hmalloc.symm.trans hmalloc'))
    rw [BlockHeap.after]
    dsimp only
    split
    case isTrue hzero => rwa [malloc_eq_zero hzero]
    case isFalse hp =>
      obtain ⟨u₁, b, u₂, hused, hused', hpayload, -⟩ :=
        @used_malloc h (h.malloc n).2 n (h.malloc n).1 rfl hp
      rw [hused']
      intro c hc
      by_cases hcb : c = b
      · simp [hcb, hpayload]
      · have hc : c ∈ h.used := by
          rw [hused]
          simpa [hcb] using hc
        exact List.mem_cons_of_mem _ (hrecorded c hc)
  | @free p s hp hfree =>
    rw [BlockHeap.after]
    split
    case isTrue hzero =>
      have hall : h.used.filter (fun b ↦ b.payload ≠ p) = h.used := by
        refine List.filter_eq_self.2 fun b _ ↦ ?_
        simp [hzero, Block.payload, sizeofHeader]
      have hkept := hrecorded.filter p
      rwa [hall] at hkept
    case isFalse hzero =>
      rw [used_free (haccept p rfl hzero (hp.resolve_left hzero))]
      exact hrecorded.filter p
  | write _ => exact hrecorded

/-- On consecutive pages in the range of `free`, every pointer is accepted. -/
theorem HeapInvariant.recorded {base : ℕ} {u u' : HeapUse} {h : BlockHeap} {a : HeapCall}
    (hu : HeapInvariant base u h) (hr : RangeCovers h) (hrecorded : Recorded h.used u.live)
    (hstep : HeapStep u a u') (hpages : Consecutive base u'.state.taken) :
    Recorded (h.after a).used u'.live := by
  refine hu.toHeld.recorded hrecorded hstep hpages.valid fun p _ _ hp ↦ ?_
  obtain ⟨c, hc, rfl⟩ := List.mem_map.1 hp
  obtain ⟨b, hb, hbc, hle⟩ := hu.serves.block c hc
  have hpos := hu.serves.positive c hc
  exact hbc ▸ hr.accepts hu.tiled (mem_used.1 hb).1 (by omega)

/-- A tiled heap without free neighbours and without blocks in use is a single block, if it has any
page. -/
theorem eq_singleton_of_all_free {base top : ℕ} {blocks : List Block}
    (htiles : Tiles Block.addr Block.stop base blocks top)
    (hno : blocks.IsChain fun a b ↦ Block.bothFree a b = false)
    (hfree : ∀ b ∈ blocks, b.isFree = true) (hlt : base < top) :
    blocks = [⟨base, top - base - sizeofHeader, true⟩] := by
  match blocks, htiles with
  | [], htiles => exact absurd (show base = top from htiles) hlt.ne
  | [b], ⟨haddr, hstop⟩ =>
    have hb := hfree b List.mem_cons_self
    have hsize : top - base - sizeofHeader = b.size := by
      have hstop : b.stop = top := hstop
      rw [← hstop, ← haddr, Block.stop]
      omega
    rw [hsize]
    cases b
    simp_all
  | a :: b :: l, _ =>
    have hboth := (List.isChain_cons_cons.1 hno).1
    rw [bothFree_iff.2 ⟨hfree a (by simp), hfree b (by simp)⟩] at hboth
    cases hboth

/-- On memory that ends before `2 ^ 47` the range of `free` covers all frames. -/
theorem initPage_rangeCovers {s : MemoryState} (hs : Uninitialised s) {entries : List E820}
    (hend : heapEnd entries < 2 ^ 47) :
    RangeCovers (emptyHeap (initPage entries s).2
      (if (initPage entries s).1 = .noRoom then [] else (usableFrames entries).map phyToVirt)) := by
  split
  case isTrue =>
    constructor
    · intro page rest h
      cases h
    · intro page h
      cases h
  case isFalse hroom =>
    rcases hframes : usableFrames entries with - | ⟨frame, rest⟩
    · constructor
      · intro page rest h
        cases h
      · intro page h
        cases h
    · obtain ⟨hstart, hstop⟩ := initPage_range hs hend hroom hframes
      constructor
      · intro page rest' h
        exact hstart.trans (List.cons.inj h).1
      · intro page hpage
        obtain ⟨j, hj, rfl⟩ := List.mem_map.1 hpage
        exact hstop j (hframes ▸ hj)

/-- What holds after every run on consecutive pages, from the heap that `init_page` leaves. `free`
accepts the pointers when usable memory ends below `2 ^ 47`. -/
theorem heapInvariant_run {s₀ : MemoryState} (hs : Uninitialised s₀) {entries : List E820}
    (hend : heapEnd entries < 2 ^ 47) {calls : List HeapCall} {u : HeapUse}
    (hrun : Run HeapStep ⟨(initPage entries s₀).2, []⟩ calls u) {base : ℕ}
    (hpages : Consecutive base u.state.taken) :
    ∃ h, HeapInvariant base u h ∧ RangeCovers h ∧ Recorded h.used u.live :=
  hrun.invariant_of_end (I := fun u ↦ ∃ h, HeapInvariant base u h ∧ RangeCovers h ∧
      Recorded h.used u.live)
    (Q := fun u ↦ Consecutive base u.state.taken) Consecutive.back
    (fun ⟨_, hu, hr, hrecorded⟩ hstep hpages ↦
      ⟨_, hu.step hstep hpages, hr.after _, hu.recorded hr hrecorded hstep hpages⟩)
    ⟨_, (initPage_fresh hs entries).heapInvariant base, initPage_rangeCovers hs hend,
      by simp [Recorded, used, emptyHeap]⟩ hpages

end LightNight
