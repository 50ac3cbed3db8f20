import LightNightOS.Memory.Rejects

/-!
# Which live pointers `free` accepts

`init_page` fixes the range of pointers that `free` accepts: from the first frame listed to the
largest end of a usable region, both as virtual addresses. The blocks lie on all the frames. So the
range is right if every frame lies in it, `FramesInRange`: the first frame listed is the lowest one,
and usable memory ends before the addresses wrap when they are mapped. Then `free` accepts every
live pointer (`free_accepts`); otherwise a live pointer may be rejected, and its block is never
released (`live_pointer_rejected`).

With a map whose regions are in descending order the first frame listed is not the lowest one. That
is the machine of `live_pointer_rejected`.
-/

namespace LightNight

open Interval BlockHeap Transition

/-- The frames of the map lie in the range that `init_page` fixes for `free`. -/
def FramesInRange (entries : List E820) : Prop :=
  ∀ first ∈ (usableFrames entries).head?, ∀ j ∈ usableFrames entries,
    phyToVirt first ≤ phyToVirt j ∧ phyToVirt j + page2MSize ≤ phyToVirt (heapEnd entries)

instance (entries : List E820) : Decidable (FramesInRange entries) :=
  inferInstanceAs (Decidable (∀ first ∈ _, _))

/-- The pages of the heap, taken or not, lie in the range of `free`. -/
def BlockHeap.PagesInRange (h : BlockHeap) : Prop :=
  ∀ page ∈ h.taken ++ h.supply, h.rangeStart ≤ page ∧ page + page2MSize ≤ h.rangeEnd

theorem BlockHeap.PagesInRange.after {h : BlockHeap} (hr : h.PagesInRange) (a : HeapCall) :
    (h.after a).PagesInRange := by
  obtain ⟨hpages, hstart, hend⟩ := h.after_pages a
  rwa [PagesInRange, hpages, hstart, hend]

/-- The heap that `init_page` leaves. -/
theorem initPage_pagesInRange {s : MemoryState} (hs : Uninitialised s) {entries : List E820}
    (hframes : FramesInRange entries) : (emptyHeap (initPage entries s).2
      (if (initPage entries s).1 = .noRoom then []
        else (usableFrames entries).map phyToVirt)).PagesInRange := by
  intro page hpage
  split at hpage
  case isTrue => cases hpage
  case isFalse hroom =>
    obtain ⟨j, hj, rfl⟩ := List.mem_map.1 hpage
    obtain ⟨first, rest, hlist⟩ := List.exists_cons_of_ne_nil (List.ne_nil_of_mem hj)
    obtain ⟨hlo, hhi⟩ := hframes first (by simp [hlist]) j hj
    have hstart := congrArg phyToVirt (initPage_heapStart hs hroom hlist)
    have hend := congrArg phyToVirt (initPage_bounds hs hroom hlist).2
    exact ⟨hstart.le.trans hlo, hhi.trans hend.ge⟩

/-- The payload of a block with room for a byte is in the range of `free`. -/
theorem BlockHeap.WellFormed.accepts {h : BlockHeap} (hwf : h.WellFormed) (hr : h.PagesInRange)
    {b : Block} (hb : b ∈ h.blocks) (hsize : 0 < b.size) : h.Accepts b.payload := by
  have hextent : b.payload ∈ b.extent := by
    refine ⟨Nat.le_add_right _ _, ?_⟩
    show b.addr + sizeofHeader < b.addr + sizeofHeader + b.size
    omega
  obtain ⟨page, hpage, hlo, hhi⟩ := Set.mem_iUnion₂.1 (hwf.inside (subset_region hb hextent))
  obtain ⟨hstart, hend⟩ := hr page (List.mem_append_left _ hpage)
  exact ⟨hstart.trans hlo, hhi.trans_le hend⟩

/-- The header `free` computes is that of the block. -/
theorem headerOf_payload {b : Block} (hstop : b.stop ≤ 2 ^ 64) (hsize : 0 < b.size) :
    headerOf b.payload = b.addr := by
  simp only [headerOf, Block.stop, Block.payload, sizeofHeader, u64] at hstop ⊢
  omega

/-- **`free` accepts what `malloc` returned**, where the frames lie in the range. After any run of
guarded calls from the heap that `init_page` leaves, a live pointer passes the range check and the
size check, and `free` marks its block and coalesces the list. -/
theorem free_accepts {s₀ : MemoryState} (hs : Uninitialised s₀) {entries : List E820}
    (hmap : SoundMap entries) (hframes : FramesInRange entries) {calls : List HeapCall}
    {u : HeapUse} (hrun : Run (Guarded GuardedCall HeapStep) ⟨(initPage entries s₀).2, []⟩ calls u)
    {p n : ℕ} (hlive : (p, n) ∈ u.live) :
    u.state.InRange p ∧ Header.size u.state.mem (headerOf p) ≤ page2MSize ∧
      ∃ blocks s', Linked u.state.mem u.state.mallocHead blocks 0 ∧
        (∃ b ∈ blocks, b.payload = p ∧ b.isFree = false) ∧ u.state.free p = some s' ∧
        Linked s'.mem s'.mallocHead (coalesce Block.bothFree Block.merge (mark p blocks)) 0 := by
  obtain ⟨h, hu, hr⟩ := hrun.invariant (I := fun u ↦ ∃ h, Confined u h ∧ h.PagesInRange)
    (fun ⟨_, hu, hr⟩ hstep ↦ ⟨_, hu.step hstep.1 hstep.2, hr.after _⟩)
    ⟨_, initPage_confined hs hmap, initPage_pagesInRange hs hframes⟩
  obtain ⟨b, hb, hbp, hle⟩ : ∃ b ∈ h.used, b.payload = p ∧ n ≤ b.size :=
    hu.serves.block (p, n) hlive
  obtain ⟨hmem, hused⟩ := mem_used.1 hb
  have hpos : 0 < b.size := (hu.serves.positive (p, n) hlive).trans_le hle
  have haccept := hu.wellFormed.accepts hr hmem hpos
  obtain ⟨s', hfree, hr', -⟩ := free_refines hu.represents hu.wellFormed hb
  have hlinked := hr'.blocks
  rw [BlockHeap.free, if_pos haccept] at hlinked
  rw [← hbp]
  refine ⟨⟨b.payload_ne_zero, ?_, ?_⟩, ?_, h.blocks, s', hu.represents.blocks,
    ⟨b, hmem, rfl, hused⟩, hfree, hlinked⟩
  · exact hu.represents.rangeStart ▸ haccept.1
  · exact hu.represents.rangeEnd ▸ haccept.2
  · rw [headerOf_payload (hu.wellFormed.block_bounds hmem).2 hpos,
      (hu.represents.blocks.fields hmem).2.1]
    exact hu.wellFormed.used_le b hmem hused

/-- The smallest run: one allocation, and its pointer. -/
theorem free_accepts_smallMap : ∃ u : HeapUse, (0xffff800000200018, 100) ∈ u.live ∧
    u.state.InRange 0xffff800000200018 ∧
    Header.size u.state.mem (headerOf 0xffff800000200018) ≤ page2MSize ∧
      ∃ blocks s', Linked u.state.mem u.state.mallocHead blocks 0 ∧
        (∃ b ∈ blocks, b.payload = 0xffff800000200018 ∧ b.isFree = false) ∧
        u.state.free 0xffff800000200018 = some s' ∧
        Linked s'.mem s'.mallocHead
          (coalesce Block.bothFree Block.merge (mark 0xffff800000200018 blocks)) 0 := by
  have hs := initPage_fresh uninitialised_zeroed smallMap
  rw [smallMap_supply] at hs
  obtain ⟨u, hstep, -, hlive⟩ := hs.held.exists_malloc (n := 100)
    (smallPages_valid.sublist (List.singleton_sublist.2 (by decide)))
  have hlive : (0xffff800000200018, 100) ∈ u.live := by
    rw [hlive]
    decide +kernel
  have hguard : GuardedCall ⟨(initPage smallMap .zeroed).2, []⟩ (.malloc 100) := trivial
  exact ⟨u, hlive, free_accepts uninitialised_zeroed soundMap_smallMap (by decide +kernel)
    (Run.single ⟨hguard, hstep⟩) hlive⟩

/-- A map that lists the higher of two frames first. -/
def descendingMap : List E820 := [⟨0x3f80000, 0x280000, 1⟩, ⟨0x200000, 0x200000, 1⟩]

/-- The frames of the map with the higher region first. -/
theorem descendingMap_supply : (if (initPage descendingMap .zeroed).1 = .noRoom then [] else
    (usableFrames descendingMap).map phyToVirt) = [0xffff800004000000, 0xffff800000200000] := by
  decide +kernel

/-- **A live pointer that is rejected.** The second block of the largest size lies below the first
frame listed, so `free` leaves the state as it is. -/
theorem live_pointer_rejected : (initPage descendingMap .zeroed).1 = .complete ∧
    ∃ u, Run HeapStep ⟨(initPage descendingMap .zeroed).2, []⟩
        [.malloc maxAllowed, .malloc maxAllowed] u ∧
      (0xffff800000200018, maxAllowed) ∈ u.live ∧ ¬u.state.InRange 0xffff800000200018 ∧
      u.state.free 0xffff800000200018 = some u.state := by
  have hs := initPage_fresh uninitialised_zeroed descendingMap
  rw [descendingMap_supply] at hs
  have hpages : PagesValid [0xffff800004000000, 0xffff800000200000] :=
    pagesValid_of_apart (by decide) (by decide)
  obtain ⟨u₁, hstep₁, hu₁, hlive₁⟩ := hs.held.exists_malloc (n := maxAllowed)
    (hpages.sublist (List.singleton_sublist.2 (by decide)))
  obtain ⟨u₂, hstep₂, hu₂, hlive₂⟩ := hu₁.exists_malloc (n := maxAllowed) hpages
  have hlive : (0xffff800000200018, maxAllowed) ∈ u₂.live := by
    rw [hlive₂, hlive₁]
    decide +kernel
  have hstart : phyToVirt u₂.state.kernelHeapStart = 0xffff800004000000 := by
    refine hu₂.represents.rangeStart.trans ?_
    decide +kernel
  have hrange : ¬u₂.state.InRange 0xffff800000200018 := by
    rintro ⟨-, hlo, -⟩
    rw [hstart] at hlo
    omega
  exact ⟨by decide +kernel, u₂, (Run.single hstep₁).snoc hstep₂, hlive, hrange,
    free_eq_self (Or.inl hrange)⟩

end LightNight
