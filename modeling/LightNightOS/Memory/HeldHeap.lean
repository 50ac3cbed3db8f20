import LightNightOS.Memory.Regions

/-!
# A heap that is held

`HoldsHeap s h` says that a memory state holds a well-formed block heap on valid pages; `init_page`
leaves such a heap (`initPage_holdsHeap`). `inUse n` is what the rest of the kernel relies on: the
payloads of the blocks in use that hold `n` bytes. `malloc` adds the block it returns to them and
keeps the others, two of them do not overlap, and writing in one of them leaves the heap as it is.

Nothing of the list of blocks is left in what a caller uses: the results for the file system, the
scheduler and the directories are stated with `inUse`, and `HoldsHeap` only has to be carried along.

* `HoldsHeap.exists_malloc`, `HoldsHeap.exists_free_guarded` — the calls return, in a state that is
  held again;
* `HoldsHeap.inUse_malloc`, `keepsBlocks_malloc` — the blocks in use after `malloc`, and their
  contents;
* `HoldsHeap.write`, `HoldsHeap.inUse_disjoint` — a write in a block, and two blocks.
-/

namespace LightNight

open Interval BlockHeap

/-- The payloads of the blocks in use that hold `n` bytes. -/
def MemoryState.inUse (n : ℕ) (s : MemoryState) : Set ℕ :=
  {p | ∃ blocks, Linked s.mem s.mallocHead blocks 0 ∧
    ∃ b ∈ blocks, b.isFree = false ∧ b.payload = p ∧ n ≤ b.size}

/-- The state holds a well-formed block heap, and its pages are valid. -/
structure HoldsHeap (s : MemoryState) (h : BlockHeap) : Prop where
  represents : Represents s h
  wellFormed : h.WellFormed
  pages : PagesValid (h.taken ++ h.supply)

/-- The reasons for which `malloc` may return `NULL`. -/
def MustRefuse (s : MemoryState) (n : ℕ) (blocks : List Block) : Prop :=
  n = 0 ∨ maxAllowed < n ∨ (∀ b ∈ blocks, ¬b.Fits (roundUp8 n)) ∧ s.freePagesList = none

section HoldsHeap

variable {s s' : MemoryState} {h : BlockHeap} {n k p q : ℕ}

/-- The blocks in use, read from the memory and from the list. -/
theorem Represents.mem_inUse (hr : Represents s h) :
    p ∈ s.inUse n ↔ ∃ b ∈ h.used, b.payload = p ∧ n ≤ b.size := by
  constructor
  · rintro ⟨blocks, hlinked, b, hb, hused, hp, hle⟩
    obtain rfl := hlinked.unique hr.blocks
    exact ⟨b, mem_used.2 ⟨hb, hused⟩, hp, hle⟩
  · rintro ⟨b, hb, hp, hle⟩
    obtain ⟨hb, hused⟩ := mem_used.1 hb
    exact ⟨h.blocks, hr.blocks, b, hb, hused, hp, hle⟩

/-- **`malloc` on a heap that is held**: it returns what the block heap says, the heap stays held,
and what is in the blocks in use stays. -/
theorem HoldsHeap.malloc_spec (hs : HoldsHeap s h) (n : ℕ) :
    ∃ s', s.malloc n = some ((h.malloc n).1, s') ∧ HoldsHeap s' (h.malloc n).2 ∧
      ∀ b ∈ h.used, Set.EqOn s'.mem s.mem b.payloadRegion := by
  have hpages : PagesValid ((h.malloc n).2.taken ++ (h.malloc n).2.supply) :=
    (h.after_pages (.malloc n)).1 ▸ hs.pages
  have hvalid := hpages.sublist (List.sublist_append_left _ _)
  obtain ⟨s', hmalloc, hr, hframe⟩ := malloc_refines hs.represents hs.wellFormed hvalid
  exact ⟨s', hmalloc, ⟨hr, wellFormed_malloc hs.wellFormed hvalid, hpages⟩, hframe⟩

/-- `malloc` returns what the block heap says. -/
theorem HoldsHeap.exists_malloc (hs : HoldsHeap s h) (n : ℕ) :
    ∃ s', s.malloc n = some ((h.malloc n).1, s') ∧ HoldsHeap s' (h.malloc n).2 := by
  obtain ⟨s', hmalloc, hs', -⟩ := hs.malloc_spec n
  exact ⟨s', hmalloc, hs'⟩

/-- A call of `malloc` that returns has done what it does on the list. -/
theorem HoldsHeap.malloc (hs : HoldsHeap s h) (hmalloc : s.malloc n = some (p, s')) :
    HoldsHeap s' (h.malloc n).2 ∧ p = (h.malloc n).1 := by
  obtain ⟨s₁, hmalloc', hs₁⟩ := hs.exists_malloc n
  obtain ⟨rfl, rfl⟩ := Prod.mk.inj (Option.some.inj (hmalloc.symm.trans hmalloc'))
  exact ⟨hs₁, rfl⟩

/-- Where no block fits and no page is left the call returns `NULL` and changes nothing. -/
theorem HoldsHeap.malloc_of_mustRefuse (hs : HoldsHeap s h) (hrefuse : MustRefuse s n h.blocks) :
    s.malloc n = some (0, s) :=
  malloc_fail hs.represents hs.wellFormed
    (hrefuse.imp_right (Or.imp_right (And.imp_right hs.represents.supply.eq_nil_iff.2)))

/-- **When `malloc` refuses.** -/
theorem HoldsHeap.malloc_null_iff (hs : HoldsHeap s h) :
    (∃ s', s.malloc n = some (0, s')) ↔ MustRefuse s n h.blocks := by
  refine ⟨?_, fun hrefuse ↦ ⟨s, hs.malloc_of_mustRefuse hrefuse⟩⟩
  rintro ⟨s', hmalloc⟩
  have hzero := (hs.malloc hmalloc).2
  rcases h.malloc_cases n with ⟨-, hno⟩ | ⟨-, -, l₁, b, l₂, -, -, -, hplaced⟩ |
    ⟨-, -, -, page, supply, -, hpage⟩
  · exact hno.imp_right (Or.imp_right (And.imp_right hs.represents.supply.eq_nil_iff.1))
  · rw [hplaced] at hzero
    exact absurd hzero.symm b.payload_ne_zero
  · rw [hpage] at hzero
    exact absurd hzero.symm (pageBlock page).payload_ne_zero

/-- Where `malloc` refuses nothing has changed. -/
theorem HoldsHeap.eq_of_malloc_null (hs : HoldsHeap s h) (hmalloc : s.malloc n = some (0, s')) :
    s' = s := by
  have hrefused := hs.malloc_of_mustRefuse (hs.malloc_null_iff.1 ⟨s', hmalloc⟩)
  exact (Prod.mk.inj (Option.some.inj (hmalloc.symm.trans hrefused))).2

theorem MemoryState.inUse_anti (hk : k ≤ n) : s.inUse n ⊆ s.inUse k := by
  rintro p ⟨blocks, hlinked, b, hb, hused, hp, hle⟩
  exact ⟨blocks, hlinked, b, hb, hused, hp, hk.trans hle⟩

/-- What `malloc` does to the blocks in use when it returns a block. -/
theorem HoldsHeap.used_malloc (hs : HoldsHeap s h) (hmalloc : s.malloc n = some (p, s'))
    (hp : p ≠ 0) : ∃ u₁ b u₂, h.used = u₁ ++ u₂ ∧ (h.malloc n).2.used = u₁ ++ b :: u₂ ∧
      b.payload = p ∧ n ≤ b.size := by
  obtain ⟨-, rfl⟩ := hs.malloc hmalloc
  exact BlockHeap.used_malloc rfl hp

/-- `malloc` keeps the blocks in use. -/
theorem HoldsHeap.inUse_malloc (hs : HoldsHeap s h) (hmalloc : s.malloc n = some (p, s'))
    (hq : q ∈ s.inUse k) : q ∈ s'.inUse k := by
  obtain ⟨hs', hreturn⟩ := hs.malloc hmalloc
  obtain ⟨c, hc, hcq, hle⟩ := hs.represents.mem_inUse.1 hq
  refine hs'.represents.mem_inUse.2 ⟨c, ?_, hcq, hle⟩
  by_cases hp : p = 0
  · rwa [malloc_eq_zero (hreturn.symm.trans hp)]
  · obtain ⟨u₁, b, u₂, hused, hused', -⟩ := hs.used_malloc hmalloc hp
    rw [hused] at hc
    rw [hused']
    exact List.mem_append.2 ((List.mem_append.1 hc).imp_right (List.mem_cons_of_mem b))

/-- `malloc` does not touch what is in the blocks in use. -/
theorem HoldsHeap.mem_malloc (hs : HoldsHeap s h) (hmalloc : s.malloc n = some (p, s'))
    (hq : q ∈ s.inUse k) : Set.EqOn s'.mem s.mem (Set.Ico q (q + k)) := by
  obtain ⟨s₁, hmalloc', -, hframe⟩ := hs.malloc_spec n
  obtain ⟨-, rfl⟩ := Prod.mk.inj (Option.some.inj (hmalloc.symm.trans hmalloc'))
  obtain ⟨b, hb, rfl, hle⟩ := hs.represents.mem_inUse.1 hq
  refine (hframe b hb).mono fun x hx ↦ ?_
  obtain ⟨hlo, hhi⟩ := hx
  simp only [Block.payloadRegion, Block.stop, Block.payload] at hlo hhi ⊢
  exact ⟨by omega, by omega⟩

/-- What is in the blocks of one heap is in those of another. -/
def KeepsBlocks (s t : MemoryState) : Prop :=
  ∀ n q, q ∈ s.inUse n → q ∈ t.inUse n ∧ Set.EqOn t.mem s.mem (Set.Ico q (q + n))

theorem KeepsBlocks.refl (s : MemoryState) : KeepsBlocks s s := fun _ _ hq ↦ ⟨hq, fun _ _ ↦ rfl⟩

/-- `malloc` keeps the blocks in use, with their contents. -/
theorem keepsBlocks_malloc (hs : HoldsHeap s h) (hmalloc : s.malloc n = some (p, s')) :
    KeepsBlocks s s' := fun _ _ hq ↦ ⟨hs.inUse_malloc hmalloc hq, hs.mem_malloc hmalloc hq⟩

/-- A pointer to a block in use is not `NULL`. -/
theorem MemoryState.ne_zero_of_mem_inUse (hp : p ∈ s.inUse n) : p ≠ 0 := by
  obtain ⟨-, -, b, -, -, rfl, -⟩ := hp
  exact b.payload_ne_zero

/-- A block in use ends below the top of the address space. -/
theorem HoldsHeap.add_le_of_mem_inUse (hs : HoldsHeap s h) (hp : p ∈ s.inUse n) :
    p + n ≤ 2 ^ 64 := by
  obtain ⟨b, hb, rfl, hle⟩ := hs.represents.mem_inUse.1 hp
  have hbound := (hs.wellFormed.block_bounds (mem_used.1 hb).1).2
  rw [Block.stop] at hbound
  rw [Block.payload]
  omega

/-- The block `malloc` returns is in use. -/
theorem HoldsHeap.mem_inUse_malloc (hs : HoldsHeap s h) (hmalloc : s.malloc n = some (p, s'))
    (hp : p ≠ 0) : p ∈ s'.inUse n := by
  obtain ⟨u₁, b, u₂, -, hused', hpayload, hsize⟩ := hs.used_malloc hmalloc hp
  exact (hs.malloc hmalloc).1.represents.mem_inUse.2 ⟨b, by simp [hused'], hpayload, hsize⟩

/-- It was not in use before. -/
theorem HoldsHeap.notMem_inUse (hs : HoldsHeap s h) (hmalloc : s.malloc n = some (p, s'))
    (hp : p ≠ 0) : p ∉ s.inUse k := by
  intro hold
  obtain ⟨u₁, b, u₂, hused, hused', hpayload, -⟩ := hs.used_malloc hmalloc hp
  obtain ⟨c, hc, hcp, -⟩ := hs.represents.mem_inUse.1 hold
  have hapart := (hs.malloc hmalloc).1.wellFormed.used_payloads
  rw [hused', List.pairwise_append, List.pairwise_cons] at hapart
  obtain ⟨-, ⟨hright, -⟩, hleft⟩ := hapart
  rw [hused] at hc
  rcases List.mem_append.1 hc with hc | hc
  · exact hleft c hc b List.mem_cons_self (hcp.trans hpayload.symm)
  · exact hright c hc (hpayload.trans hcp.symm)

/-- `free` returns on a block in use. -/
theorem HoldsHeap.exists_free (hs : HoldsHeap s h) (hp : p ∈ s.inUse k) :
    ∃ s', s.free p = some s' ∧ Represents s' (h.free p) := by
  obtain ⟨b, hb, rfl, -⟩ := hs.represents.mem_inUse.1 hp
  obtain ⟨s', hfree, hr, -⟩ := free_refines hs.represents hs.wellFormed hb
  exact ⟨s', hfree, hr⟩

/-- Where `free` leaves the holes guarded, the heap stays held. -/
theorem HoldsHeap.exists_free_guarded (hs : HoldsHeap s h) (hp : p ∈ s.inUse k)
    (hguard : LeavesHolesGuarded p h.blocks) :
    ∃ s', s.free p = some s' ∧ HoldsHeap s' (h.free p) := by
  obtain ⟨s', hfree, hr⟩ := hs.exists_free hp
  have hwf := wellFormed_free hs.wellFormed fun _ ↦ leavesHolesGuarded_iff.1 hguard
  have hafter : h.after (.free p) = h.free p := if_neg (MemoryState.ne_zero_of_mem_inUse hp)
  have hpages := hafter ▸ (h.after_pages (.free p)).1
  exact ⟨s', hfree, hr, hwf, hpages ▸ hs.pages⟩

/-- Writing in a block in use leaves the heap as it is. -/
theorem HoldsHeap.write (hs : HoldsHeap s h) (hp : p ∈ s.inUse n) {m : ByteMemory}
    (hm : ∀ x ∉ Set.Ico p (p + n), m x = s.mem x) : HoldsHeap { s with mem := m } h := by
  obtain ⟨b, hb, rfl, hle⟩ := hs.represents.mem_inUse.1 hp
  refine ⟨hs.represents.of_eqOn fun x hx ↦ hm x fun hxp ↦ ?_, hs.wellFormed, hs.pages⟩
  refine Set.disjoint_left.1
    (hs.wellFormed.headerRegion_disjoint_payload (mem_used.1 hb).1) hx ?_
  have hlo := hxp.1
  have hhi := hxp.2
  simp only [Block.payloadRegion, Block.stop, Block.payload] at hlo hhi ⊢
  exact ⟨by omega, by omega⟩

/-- Two states that hold the same heap have the same blocks in use. -/
theorem HoldsHeap.inUse_eq (hs : HoldsHeap s h) (hs' : HoldsHeap s' h) : s'.inUse k = s.inUse k :=
  Set.ext fun _ ↦ hs'.represents.mem_inUse.trans hs.represents.mem_inUse.symm

/-- Blocks in use do not overlap. -/
theorem HoldsHeap.inUse_disjoint (hs : HoldsHeap s h) (hp : p ∈ s.inUse n) (hq : q ∈ s.inUse k)
    (hne : p ≠ q) : Disjoint (Set.Ico p (p + n)) (Set.Ico q (q + k)) := by
  have hregion : ∀ {b : Block} {k : ℕ}, k ≤ b.size →
      Set.Ico b.payload (b.payload + k) ⊆ b.extent := by
    intro b k hle x hx
    obtain ⟨hlo, hhi⟩ := hx
    simp only [Block.payload] at hlo hhi
    simp only [Block.extent, Block.stop]
    exact ⟨by omega, by omega⟩
  obtain ⟨b, hb, rfl, hbk⟩ := hs.represents.mem_inUse.1 hp
  obtain ⟨c, hc, rfl, hck⟩ := hs.represents.mem_inUse.1 hq
  refine Set.disjoint_left.2 fun x hx hx' ↦ hne (congrArg Block.payload ?_)
  exact hs.wellFormed.eq_of_mem_extent (mem_used.1 hb).1 (mem_used.1 hc).1 (hregion hbk hx)
    (hregion hck hx')

end HoldsHeap

/-! ### After `init_page` -/

/-- `init_page` leaves a heap that is held. -/
theorem initPage_holdsHeap {s : MemoryState} (hs : Uninitialised s) {entries : List E820}
    (hmap : SoundMap entries) : ∃ h, HoldsHeap (initPage entries s).2 h := by
  have hconfined := initPage_confined hs hmap
  exact ⟨_, hconfined.represents, hconfined.wellFormed, hconfined.pages⟩

theorem smallPages_valid : PagesValid [0xffff800000200000, 0xffff800000400000] :=
  pagesValid_of_apart (by decide) (by decide)

/-- The heap of the small machine after boot. -/
def smallHeap : BlockHeap :=
  emptyHeap (initPage smallMap .zeroed).2 [0xffff800000200000, 0xffff800000400000]

/-- What `init_page` leaves on the small machine. -/
theorem holdsHeap_smallHeap : HoldsHeap (initPage smallMap .zeroed).2 smallHeap := by
  have hs := initPage_fresh uninitialised_zeroed smallMap
  rw [smallMap_supply] at hs
  exact ⟨hs.held.represents, hs.held.wellFormed, smallPages_valid⟩

theorem soundMap_smallMap : SoundMap smallMap := by
  have hframes : usableFrames smallMap = [0x200000, 0x400000] := by decide +kernel
  have hvirt : (usableFrames smallMap).map phyToVirt =
      [0xffff800000200000, 0xffff800000400000] := by decide +kernel
  have hroom : findRoom (pageCount smallMap) smallMap = some ⟨0x180000, 0x480000, 1⟩ := by
    decide +kernel
  have hcount : pageCount smallMap = 2 := by decide +kernel
  refine ⟨hvirt ▸ smallPages_valid, fun room hmem j hj ↦ ?_⟩
  rw [hroom] at hmem
  obtain rfl := Option.mem_some_iff.1 hmem
  refine Set.disjoint_left.2 fun x hx hx' ↦ ?_
  have hhi : x < 0x180000 + pageCount smallMap * sizeofPage := hx.2
  have hlo := hx'.1
  rw [hcount, sizeofPage] at hhi
  rw [hframes] at hj
  simp only [List.mem_cons, List.not_mem_nil, or_false] at hj
  omega

end LightNight
