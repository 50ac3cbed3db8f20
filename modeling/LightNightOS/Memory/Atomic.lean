import LightNightOS.Memory.HeldHeap

/-!
# One call of `malloc`

`malloc` either refuses, and then nothing has changed, or it succeeds, and then it has touched one
free block or one fresh page. `malloc_atomic` is this statement for every size, in every state
reached by guarded calls.

Without the guard it is false. A block merged across a hole may cover a frame that is still on the
free list; what is left of it when it is split lies in that frame, and `alloc_page` clears it
(`malloc_wipes_header`).
-/

namespace LightNight

open Interval BlockHeap Transition

/-- The free block with payload `p` has been taken, whole or split. The blocks before it and behind
it stand as they were. -/
def TakesBlock (p : ℕ) (blocks blocks' : List Block) : Prop :=
  ∃ l₁ b l₂ new, blocks = l₁ ++ b :: l₂ ∧ b.isFree = true ∧ b.payload = p ∧
    blocks' = l₁ ++ new ++ l₂

/-- One page has been taken, with the payload `p` at its start. All the blocks stand as they
were. -/
def TakesPage (p : ℕ) (s s' : MemoryState) (blocks blocks' : List Block) : Prop :=
  ∃ page new, s'.taken = s.taken ++ [page] ∧ p = page + sizeofHeader ∧ blocks' = blocks ++ new

/-- **`malloc` is atomic and local.** After any run of guarded calls from the heap that `init_page`
leaves, `malloc` returns for every size. If it returns `NULL`, the state is the one before, and the
request had to be refused. Otherwise it has taken one free block of the list and no page, or one
page and no block. -/
theorem malloc_atomic {s₀ : MemoryState} (hs : Uninitialised s₀) {entries : List E820}
    (hmap : SoundMap entries) {calls : List HeapCall} {u : HeapUse}
    (hrun : Run (Guarded GuardedCall HeapStep) ⟨(initPage entries s₀).2, []⟩ calls u) (n : ℕ) :
    ∃ blocks p s', Linked u.state.mem u.state.mallocHead blocks 0 ∧
      u.state.malloc n = some (p, s') ∧
      (p = 0 → s' = u.state ∧ MustRefuse u.state n blocks) ∧
      (p ≠ 0 → ∃ blocks', Linked s'.mem s'.mallocHead blocks' 0 ∧
        (TakesBlock p blocks blocks' ∧ s'.taken = u.state.taken ∨
          TakesPage p u.state s' blocks blocks')) := by
  obtain ⟨h, hu⟩ := confined_run hs hmap hrun
  have hvalid : PagesValid (h.malloc n).2.taken := by
    have hpages := (h.after_pages (.malloc n)).1 ▸ hu.pages
    exact hpages.sublist (List.sublist_append_left _ _)
  obtain ⟨s', hmalloc, hr, -⟩ := malloc_refines hu.represents hu.wellFormed hvalid
  refine ⟨h.blocks, _, s', hu.represents.blocks, hmalloc, fun hzero ↦ ?_, fun hp ↦ ?_⟩
  · have hs : HoldsHeap u.state h := ⟨hu.represents, hu.wellFormed, hu.pages⟩
    rw [hzero] at hmalloc
    exact ⟨hs.eq_of_malloc_null hmalloc, hs.malloc_null_iff.1 ⟨s', hmalloc⟩⟩
  · refine ⟨(h.malloc n).2.blocks, hr.blocks, ?_⟩
    rcases h.malloc_cases n with ⟨hfail, -⟩ | ⟨-, -, l₁, b, l₂, hl, -, hfits, hplaced⟩ |
      ⟨-, -, -, page, supply, -, hpage⟩
    · rw [hfail] at hp
      exact absurd rfl hp
    · refine Or.inl ⟨⟨l₁, b, l₂, b.carve (roundUp8 n), hl, hfits.1, ?_, ?_⟩, ?_⟩
      · rw [hplaced]
      · rw [hplaced]
      · rw [hr.taken, hu.represents.taken, hplaced]
    · refine Or.inr ⟨page, (pageBlock page).carve (roundUp8 n), ?_, ?_, ?_⟩
      · rw [hr.taken, hu.represents.taken, hpage]
      · rw [hpage]
      · rw [hpage]

theorem malloc_atomic_smallMap : ∃ u : HeapUse, u.live = [(0xffff800000200018, 100)] ∧
    ∃ blocks p s', Linked u.state.mem u.state.mallocHead blocks 0 ∧
      u.state.malloc 50 = some (p, s') ∧
      (p = 0 → s' = u.state ∧ MustRefuse u.state 50 blocks) ∧
      (p ≠ 0 → ∃ blocks', Linked s'.mem s'.mallocHead blocks' 0 ∧
        (TakesBlock p blocks blocks' ∧ s'.taken = u.state.taken ∨
          TakesPage p u.state s' blocks blocks')) := by
  have hs := initPage_fresh uninitialised_zeroed smallMap
  rw [smallMap_supply] at hs
  obtain ⟨u, hstep, -, hlive⟩ := hs.held.exists_malloc (n := 100)
    (smallPages_valid.sublist (List.singleton_sublist.2 (by decide)))
  have hguard : GuardedCall ⟨(initPage smallMap .zeroed).2, []⟩ (.malloc 100) := trivial
  exact ⟨u, hlive, malloc_atomic uninitialised_zeroed soundMap_smallMap
    (Run.single ⟨hguard, hstep⟩) 50⟩

/-! ### A page under a merged block -/

/-- Three usable regions of one frame each. The last one listed lies right behind the first. -/
def coveredMap : List E820 :=
  [⟨0x180000, 0x280000, 1⟩, ⟨0x4000000, 0x200000, 1⟩, ⟨0x400000, 0x200000, 1⟩]

/-- The frames in the order of the map: the last one listed lies between the other two. -/
theorem coveredMap_supply : (if (initPage coveredMap .zeroed).1 = .noRoom then [] else
    (usableFrames coveredMap).map phyToVirt) =
      [0xffff800000200000, 0xffff800004000000, 0xffff800000400000] := by
  decide +kernel

/-- The heap of this machine after two blocks of the largest size, the second of which is freed: the
rest of the first page is merged with the second one, and covers the third. -/
def coveredHeap : BlockHeap := (((emptyHeap (initPage coveredMap .zeroed).2
  [0xffff800000200000, 0xffff800004000000, 0xffff800000400000]).malloc maxAllowed).2.malloc
    maxAllowed).2.free 0xffff800004000018

/-- The blocks after the merge: the last of them covers a frame that is still on the free list. -/
theorem coveredHeap_blocks : coveredHeap.blocks = [⟨0xffff800000200000, maxAllowed, false⟩] ++
    ⟨0xffff8000003fff80, 2097256, true⟩ :: [] := by
  decide +kernel

theorem coveredHeap_supply : coveredHeap.supply = [0xffff800000400000] := by
  decide +kernel

/-- The last header of the list, if it lies on the page that `alloc_page` clears, ends up with the
size 0: `malloc` writes its link only. -/
theorem layFreshPage_size {m : ByteMemory} {page size h : ℕ}
    (hlo : page + sizeofHeader ≤ h) (hhi : h + sizeofHeader ≤ page + (size + sizeofHeader))
    (hsize : size + sizeofHeader + sizeofHeader + 8 < (pageBlock page).size)
    (hstop : (pageBlock page).stop ≤ 2 ^ 64) :
    Header.size (MemoryState.layFreshPage (m.fill page page2MSize 0) h page size) h = 0 := by
  rw [pageBlock_stop] at hstop
  rw [pageBlock_size] at hsize
  rw [sizeofHeader] at hlo hhi hsize
  rw [page2MSize_eq] at hstop
  have hapart : Disjoint (Header.bytes h) (Header.bytes page) :=
    Set.disjoint_left.2 fun x hx hx' ↦ by
      have h₁ := hx.1
      have h₂ := hx'.2
      rw [sizeofHeader] at h₂
      omega
  obtain ⟨hpage, -, -⟩ := freshPage_header (m := m.fill page page2MSize 0) hapart rfl
  have hnew : u64 (page + (size + sizeofHeader)) = page + (size + sizeofHeader) := by
    refine u64_of_lt ?_
    rw [sizeofHeader]
    omega
  have hne : h ≠ 0 := by omega
  have hsplit : size + sizeofHeader + sizeofHeader + 8 < (pageBlock page).size := by
    rw [pageBlock_size, sizeofHeader]
    omega
  rw [MemoryState.layFreshPage]
  simp only [if_pos hne]
  rw [MemoryState.split, hpage, if_pos hsplit, hnew]
  -- the writes on both sides of the header, then its own link, then the first header of the page
  have hright : h + sizeofHeader ≤ page + (size + sizeofHeader) := hhi
  have hleft : page + sizeofHeader ≤ h := hlo
  show Header.get .size _ h = 0
  rw [Header.get_set_of_apart (Or.inr hleft), Header.get_set_of_apart (Or.inr hleft),
    Header.get_set_of_apart (Or.inl hright), Header.get_set_of_apart (Or.inl hright),
    Header.get_set_of_apart (Or.inl hright), Header.get_set_of_ne (by decide),
    Header.get_set_of_apart (Or.inr hleft), Header.get_set_of_apart (Or.inr hleft),
    Header.get_set_of_apart (Or.inr hleft)]
  have hclear : Set.EqOn (m.fill page page2MSize 0) (fun _ ↦ 0) (Header.bytes h) := by
    intro x hx
    refine ByteMemory.fill_of_mem ⟨?_, ?_⟩
    · have hlo' := hx.1
      omega
    · have hhi' := hx.2
      rw [sizeofHeader] at hhi'
      rw [page2MSize_eq]
      omega
  rw [Header.get_congr hclear]
  rfl

/-- **A page taken clears a block that exists.** The merged block is split, and what is left of it
lies on the third page. The next call takes this page: the block left over was free and held 232
bytes, now its header holds the size 0. -/
theorem malloc_wipes_header : ∃ u, Run HeapStep ⟨(initPage coveredMap .zeroed).2, []⟩
      [.malloc maxAllowed, .malloc maxAllowed, .free 0xffff800004000018, .malloc maxAllowed] u ∧
    ∃ blocks p s', Linked u.state.mem u.state.mallocHead blocks 0 ∧
      u.state.malloc maxAllowed = some (p, s') ∧ p ≠ 0 ∧ s'.taken ≠ u.state.taken ∧
      ∃ b ∈ blocks, b.isFree = true ∧ b.size = 232 ∧ Header.size s'.mem b.addr = 0 := by
  have hs := initPage_fresh uninitialised_zeroed coveredMap
  rw [coveredMap_supply] at hs
  have hpages : PagesValid [0xffff800000200000, 0xffff800004000000] :=
    pagesValid_of_apart (by decide) (by decide)
  obtain ⟨u₁, hstep₁, hu₁, hlive₁⟩ := hs.held.exists_malloc (n := maxAllowed)
    (hpages.sublist (List.singleton_sublist.2 (by decide)))
  obtain ⟨u₂, hstep₂, hu₂, hlive₂⟩ := hu₁.exists_malloc (n := maxAllowed) hpages
  have hlive : 0xffff800004000018 ∈ u₂.live.map Prod.fst := by
    rw [hlive₂, hlive₁]
    decide +kernel
  obtain ⟨s₃, hstep₃, hr₃⟩ := hu₂.exists_free hlive
  have hr₃ : Represents s₃ coveredHeap := hr₃
  -- the heap is not well formed any more, so the next two calls are computed on the list
  have hfits : (⟨0xffff8000003fff80, 2097256, true⟩ : Block).Fits (roundUp8 maxAllowed) := by
    decide +kernel
  have hmalloc₄ := malloc_eq_takeBlock hr₃ (by decide) le_rfl coveredHeap_blocks (by decide +kernel)
    hfits (by decide) (by rw [coveredHeap_blocks]; decide)
  have hapart : ∀ c : Block, c ∈ [⟨0xffff800000200000, maxAllowed, false⟩] ∨ c ∈ [] →
      Disjoint (⟨0xffff8000003fff80, 2097256, true⟩ : Block).extent c.extent := by
    intro c hc
    obtain rfl : c = ⟨0xffff800000200000, maxAllowed, false⟩ := by simpa using hc
    refine Set.disjoint_left.2 fun x hx hx' ↦ ?_
    have hlo : 0xffff8000003fff80 ≤ x := hx.1
    have hhi : x < 0xffff800000200000 + 24 + maxAllowed := hx'.2
    rw [maxAllowed_eq] at hhi
    omega
  obtain ⟨s₄, htake, hr₄, -⟩ := takeBlock_refines hr₃ coveredHeap_blocks (by decide +kernel) hapart
    hfits
  rw [htake] at hmalloc₄
  have hrun := (((Run.single hstep₁).snoc hstep₂).snoc hstep₃).snoc (HeapStep.malloc hmalloc₄)
  have hcarve : [⟨0xffff800000200000, maxAllowed, false⟩] ++
      Block.carve ⟨0xffff8000003fff80, 2097256, true⟩ (roundUp8 maxAllowed) ++ [] =
      [⟨0xffff800000200000, maxAllowed, false⟩, ⟨0xffff8000003fff80, maxAllowed, false⟩,
        ⟨0xffff8000005fff00, 232, true⟩] := by
    decide +kernel
  rw [hcarve] at hr₄
  have hmalloc₅ := malloc_eq_takeFreshPage hr₄ (by decide) le_rfl (List.cons_ne_nil _ _)
    (by decide +kernel) (by decide)
  have hlast : lastAddr 0 [⟨0xffff800000200000, maxAllowed, false⟩,
      ⟨0xffff8000003fff80, maxAllowed, false⟩, ⟨0xffff8000005fff00, 232, true⟩] =
      0xffff8000005fff00 := rfl
  obtain ⟨i, pages, head, total, halloc, hpage, -⟩ :=
    @allocPage_cons s₄ 0xffff800000400000 [] (coveredHeap_supply ▸ hr₄.supply)
  rw [hlast, MemoryState.takeFreshPage, halloc] at hmalloc₅
  simp only [hpage] at hmalloc₅
  have hround : roundUp8 maxAllowed = 2097000 := by decide +kernel
  have hstop : (pageBlock 0xffff800000400000).stop ≤ 2 ^ 64 := by decide
  have hsize : Header.size (MemoryState.layFreshPage
      (s₄.mem.fill 0xffff800000400000 page2MSize 0) 0xffff8000005fff00 0xffff800000400000
      (roundUp8 maxAllowed)) 0xffff8000005fff00 = 0 := by
    rw [hround]
    exact layFreshPage_size (by decide) (by decide) (by decide) hstop
  refine ⟨_, hrun, _, _, _, hr₄.blocks, hmalloc₅, by decide, ?_, ⟨0xffff8000005fff00, 232, true⟩,
    by simp, rfl, rfl, ?_⟩
  · intro htaken
    have hlength := congrArg List.length htaken
    simp at hlength
  · dsimp only
    exact hsize

end LightNight
