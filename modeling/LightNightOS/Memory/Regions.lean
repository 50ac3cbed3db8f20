import LightNightOS.Memory.HeapRuns

/-!
# The heap on several regions of memory

`free` merges list neighbours that are both free, and adds up their sizes. On consecutive pages list
neighbours touch. When the usable memory has holes they need not, and a merge across a hole claims
memory that was never handed out.

`free_merges_across_hole` is a run in which this happens: two regions of one page each, a block
taken from each, the second one freed. What remains free at the end of the first page is merged with
the second page.

`blocks_inside_pages` is the exact guard: as long as no call of `free` leaves two free neighbours
with a hole between them, every block stays inside the pages handed out, on any map.
-/

namespace LightNight

open Interval BlockHeap Transition

/-! ### The condition -/

/-- The block is free once `p` has been freed. -/
def Block.FreeAfter (p : ℕ) (b : Block) : Prop := b.isFree = true ∨ b.payload = p

instance (p : ℕ) (b : Block) : Decidable (b.FreeAfter p) :=
  inferInstanceAs (Decidable (_ ∨ _))

/-- Freeing `p` leaves no two free neighbours with a hole between them. -/
def LeavesHolesGuarded (p : ℕ) (blocks : List Block) : Prop :=
  blocks.IsChain fun a b ↦ a.FreeAfter p → b.FreeAfter p → a.stop = b.addr

instance (p : ℕ) (blocks : List Block) : Decidable (LeavesHolesGuarded p blocks) :=
  inferInstanceAs (Decidable (List.IsChain _ _))

/-- `free` passes the range check. -/
def MemoryState.InRange (s : MemoryState) (p : ℕ) : Prop :=
  p ≠ 0 ∧ phyToVirt s.kernelHeapStart ≤ p ∧ p < phyToVirt s.kernelHeapEnd

/-- The header in front of the pointer, as `free` computes it. -/
def headerOf (p : ℕ) : ℕ := u64 (p + (2 ^ 64 - sizeofHeader))

/-- `free` rejects the pointer, or what it takes for the size. -/
theorem free_eq_self {s : MemoryState} {p : ℕ}
    (h : ¬s.InRange p ∨ page2MSize < Header.size s.mem (headerOf p)) : s.free p = some s := by
  rw [MemoryState.free]
  split
  case isTrue => rfl
  case isFalse hne =>
    split
    case isTrue => rfl
    case isFalse hrange =>
      have hsize : page2MSize < Header.size s.mem (headerOf p) := by
        refine h.resolve_left (not_not_intro ⟨hne, ?_, ?_⟩) <;> omega
      exact if_pos hsize

/-- The condition on a call: if it frees a block, it leaves the holes guarded. -/
def GuardedCall (u : HeapUse) : HeapCall → Prop
  | .free p => u.state.InRange p →
      ∀ blocks, Linked u.state.mem u.state.mallocHead blocks 0 → LeavesHolesGuarded p blocks
  | _ => True

/-- The condition on the memory map. The usable frames are distinct and none of them is mapped to
`NULL`, and the descriptors, which the model keeps beside memory, really are apart from them.

The statics of the kernel and the page tables of the boot are objects of their own in the model too,
so they are taken as apart from the array, which `descriptorsApart_iff` decides; and every frame is
taken as mapped, which `frames_mapped_iff` decides. -/
structure SoundMap (entries : List E820) : Prop where
  frames : PagesValid ((usableFrames entries).map phyToVirt)
  descriptors : ∀ room ∈ findRoom (pageCount entries) entries, ∀ j ∈ usableFrames entries,
    Disjoint (descriptorRange entries room) (Set.Ico j (j + page2MSize))

theorem leavesHolesGuarded_iff {p : ℕ} {blocks : List Block} :
    LeavesHolesGuarded p blocks ↔ HolesGuarded (mark p blocks) := by
  have hkey : ∀ b : Block, ((if b.payload = p then { b with isFree := true } else b).isFree = true ↔
      b.FreeAfter p) ∧
      (if b.payload = p then { b with isFree := true } else b).addr = b.addr ∧
      (if b.payload = p then { b with isFree := true } else b).stop = b.stop := by
    intro b
    rw [Block.FreeAfter]
    by_cases hp : b.payload = p
    · rw [if_pos hp]
      exact ⟨by simp [hp], rfl, rfl⟩
    · rw [if_neg hp]
      exact ⟨by simp [hp], rfl, rfl⟩
  rw [HolesGuarded, mark, List.isChain_map, LeavesHolesGuarded]
  have hiff : ∀ a b : Block, (a.FreeAfter p → b.FreeAfter p → a.stop = b.addr) ↔
      (Block.bothFree (if a.payload = p then { a with isFree := true } else a)
        (if b.payload = p then { b with isFree := true } else b) = true →
        (if a.payload = p then { a with isFree := true } else a).stop =
          (if b.payload = p then { b with isFree := true } else b).addr) := by
    intro a b
    rw [bothFree_iff, (hkey a).1, (hkey b).1, (hkey a).2.2, (hkey b).2.1, and_imp]
  simp only [hiff]

/-! ### Runs that meet the condition

The invariant is that of `HeapRuns`, without the pages being consecutive. The guard is needed in one
place only, where the pass merges two blocks. -/

/-- The blocks held lie inside the pages handed out, and the pages still to come are valid. -/
structure Confined (u : HeapUse) (h : BlockHeap) : Prop extends Held u h where
  pages : PagesValid (h.taken ++ h.supply)

/-- A guarded call keeps the blocks inside the pages. -/
theorem Confined.step {u u' : HeapUse} {h : BlockHeap} {a : HeapCall} (hu : Confined u h)
    (hguard : GuardedCall u a) (hstep : HeapStep u a u') : Confined u' (h.after a) := by
  have hpages : PagesValid ((h.after a).taken ++ (h.after a).supply) :=
    (h.after_pages a).1 ▸ hu.pages
  cases a with
  | malloc n =>
    have hvalid : PagesValid (h.malloc n).2.taken :=
      hpages.sublist (List.sublist_append_left _ _)
    obtain ⟨u'', hstep', hheld, hlive⟩ := hu.toHeld.exists_malloc hvalid
    have heq : u'' = u' := by
      cases hstep with
      | malloc hmalloc =>
        cases hstep' with
        | malloc hmalloc' =>
          obtain ⟨rfl, rfl⟩ := Prod.mk.inj (Option.some.inj (hmalloc.symm.trans hmalloc'))
          rfl
    exact ⟨heq ▸ hheld, hpages⟩
  | free p =>
    refine ⟨hu.toHeld.free hstep fun hne haccept ↦ leavesHolesGuarded_iff.1 ?_, hpages⟩
    refine hguard ⟨hne, ?_, ?_⟩ h.blocks hu.represents.blocks
    · exact hu.represents.rangeStart.symm ▸ haccept.1
    · exact hu.represents.rangeEnd.symm ▸ haccept.2
  | write => exact ⟨hu.toHeld.write hstep, hpages⟩

/-- One merge of two free neighbours, the second of which starts where the first one ends. -/
def TouchingMerge (l l' : List Block) : Prop :=
  ∃ l₁ a b l₂, (Block.bothFree a b = true ∧ a.stop = b.addr) ∧ l = l₁ ++ a :: b :: l₂ ∧
    l' = l₁ ++ a.merge b :: l₂

/-- With the holes guarded, the coalescing pass merges touching neighbours only. -/
theorem coalesce_touching {l : List Block} (h : HolesGuarded l) :
    Relation.ReflTransGen TouchingMerge l (coalesce Block.bothFree Block.merge l) :=
  coalesce_merges (P := HolesGuarded) (fun _ _ _ _ hfree h ↦ h.merge hfree)
    (fun _ _ _ _ hfree h ↦ ⟨hfree, (List.isChain_append_cons_cons.1 h).2.1 hfree⟩) h

theorem Fresh.confined {s : MemoryState} {supply : List ℕ} (hs : Fresh s supply)
    (hpages : PagesValid supply) : Confined ⟨s, []⟩ (emptyHeap s supply) :=
  ⟨hs.held, hpages⟩

/-- The heap that `init_page` leaves. -/
theorem initPage_confined {s₀ : MemoryState} (hs : Uninitialised s₀) {entries : List E820}
    (hmap : SoundMap entries) : Confined ⟨(initPage entries s₀).2, []⟩
      (emptyHeap (initPage entries s₀).2 (if (initPage entries s₀).1 = .noRoom then []
        else (usableFrames entries).map phyToVirt)) := by
  refine (initPage_fresh hs entries).confined ?_
  split
  exacts [hmap.frames.sublist (List.nil_sublist _), hmap.frames]

/-- **Every run of guarded calls** from the heap that `init_page` leaves. -/
theorem confined_run {s₀ : MemoryState} (hs : Uninitialised s₀) {entries : List E820}
    (hmap : SoundMap entries) {calls : List HeapCall} {u : HeapUse}
    (hrun : Run (Guarded GuardedCall HeapStep) ⟨(initPage entries s₀).2, []⟩ calls u) :
    ∃ h, Confined u h :=
  hrun.invariant (I := fun u ↦ ∃ h, Confined u h) (fun ⟨_, hu⟩ hstep ↦ ⟨_, hu.step hstep.1 hstep.2⟩)
    ⟨_, initPage_confined hs hmap⟩

/-- **Coalescing invents no memory** where the holes stay guarded. In every run of guarded calls
from the heap that `init_page` leaves, every block lies inside the pages handed out; and the next
guarded `free` merges only neighbours that touch. -/
theorem blocks_inside_pages {s₀ : MemoryState} (hs : Uninitialised s₀) {entries : List E820}
    (hmap : SoundMap entries) {calls : List HeapCall} {u : HeapUse}
    (hrun : Run (Guarded GuardedCall HeapStep) ⟨(initPage entries s₀).2, []⟩ calls u) :
    ∃ blocks, Linked u.state.mem u.state.mallocHead blocks 0 ∧
      (∀ b ∈ blocks, b.extent ⊆ region pageRegion u.state.taken) ∧
      ∀ p u', HeapStep u (.free p) u' → GuardedCall u (.free p) →
        ∃ blocks', Linked u'.state.mem u'.state.mallocHead blocks' 0 ∧
          (blocks' = blocks ∨ Relation.ReflTransGen TouchingMerge (mark p blocks) blocks') := by
  obtain ⟨h, hu⟩ := confined_run hs hmap hrun
  refine ⟨h.blocks, hu.represents.blocks, fun b hb ↦ ?_, fun p u' hstep hguard ↦ ?_⟩
  · rw [hu.represents.taken]
    exact (subset_region hb).trans hu.wellFormed.inside
  · have hu' := hu.step hguard hstep
    refine ⟨(h.after (.free p)).blocks, hu'.represents.blocks, ?_⟩
    rw [BlockHeap.after, BlockHeap.free]
    split
    case isTrue => exact Or.inl rfl
    case isFalse hne =>
      split
      case isFalse => exact Or.inl rfl
      case isTrue haccept =>
        refine Or.inr (coalesce_touching (leavesHolesGuarded_iff.1 ?_))
        refine hguard ⟨hne, ?_, ?_⟩ h.blocks hu.represents.blocks
        · exact hu.represents.rangeStart.symm ▸ haccept.1
        · exact hu.represents.rangeEnd.symm ▸ haccept.2

/-! ### Two regions with a hole between them -/

/-- Two usable regions of one frame each, and a reserved region between them. -/
def holeMap : List E820 :=
  [⟨0x180000, 0x280000, 1⟩, ⟨0x400000, 0x3c00000, 2⟩, ⟨0x4000000, 0x200000, 1⟩]

theorem holeMap_supply : (if (initPage holeMap .zeroed).1 = .noRoom then [] else
    (usableFrames holeMap).map phyToVirt) = [0xffff800000200000, 0xffff800004000000] := by
  decide +kernel

/-- Both pages taken, each by one block of the largest size. -/
theorem holeMap_taken : ∃ u, Run (Guarded GuardedCall HeapStep)
      ⟨(initPage holeMap .zeroed).2, []⟩ [.malloc maxAllowed, .malloc maxAllowed] u ∧
    u.live = [(0xffff800004000018, maxAllowed), (0xffff800000200018, maxAllowed)] ∧
    ∃ h, Held u h ∧ h.taken = [0xffff800000200000, 0xffff800004000000] ∧
      h.blocks = [⟨0xffff800000200000, maxAllowed, false⟩, ⟨0xffff8000003fff80, 104, true⟩,
        ⟨0xffff800004000000, maxAllowed, false⟩, ⟨0xffff8000041fff80, 104, true⟩] ∧
      h.rangeStart = 0xffff800000200000 ∧ h.rangeEnd = 0xffff800004200000 := by
  have hs := initPage_fresh uninitialised_zeroed holeMap
  rw [holeMap_supply] at hs
  have hpages : PagesValid [0xffff800000200000, 0xffff800004000000] :=
    pagesValid_of_apart (by decide) (by decide)
  obtain ⟨u₁, hstep₁, hu₁, hlive₁⟩ := hs.held.exists_malloc (n := maxAllowed)
    (hpages.sublist (List.singleton_sublist.2 (by decide)))
  obtain ⟨u₂, hstep₂, hu₂, hlive₂⟩ := hu₁.exists_malloc (n := maxAllowed) hpages
  refine ⟨u₂, ((Run.nil _).snoc ⟨trivial, hstep₁⟩).snoc ⟨trivial, hstep₂⟩, ?_, _, hu₂, ?_, ?_, ?_,
    ?_⟩
  · rw [hlive₂, hlive₁]
    rfl
  · rfl
  · decide +kernel
  · decide +kernel
  · decide +kernel

/-- **A merge across the hole.** Freeing the second block joins the free rest of the first page with
the second page: the merged block starts in the first page and covers the first bytes of the
reserved region. -/
theorem free_merges_across_hole :
    (initPage holeMap .zeroed).1 = .complete ∧
      ∃ u, Run HeapStep ⟨(initPage holeMap .zeroed).2, []⟩
          [.malloc maxAllowed, .malloc maxAllowed, .free 0xffff800004000018] u ∧
        ∃ blocks, Linked u.state.mem u.state.mallocHead blocks 0 ∧
          ¬∀ b ∈ blocks, b.extent ⊆ region pageRegion u.state.taken := by
  obtain ⟨u, hrun, hlive, h, hu, htaken, hblocks, hstart, hend⟩ := holeMap_taken
  obtain ⟨s', hstep, hr⟩ := hu.exists_free (p := 0xffff800004000018) (by simp [hlive])
  refine ⟨by decide +kernel, _, hrun.of_guarded.snoc hstep, _, hr.blocks, fun hinside ↦ ?_⟩
  have hfreed : (h.free 0xffff800004000018).blocks =
        [⟨0xffff800000200000, maxAllowed, false⟩, ⟨0xffff8000003fff80, 2097256, true⟩] ∧
      (h.free 0xffff800004000018).taken = [0xffff800000200000, 0xffff800004000000] := by
    have haccept : h.Accepts 0xffff800004000018 := by
      rw [Accepts, hstart, hend]
      decide
    rw [BlockHeap.free, if_pos haccept]
    refine ⟨?_, htaken⟩
    rw [hblocks]
    dsimp only
    decide +kernel
  have hhole : 0xffff800000400000 ∈ region pageRegion (h.free 0xffff800004000018).taken := by
    rw [← hr.taken]
    refine hinside ⟨0xffff8000003fff80, 2097256, true⟩ (by simp [hfreed.1]) ?_
    exact ⟨by decide, by decide⟩
  rw [hfreed.2] at hhole
  obtain ⟨p, hp, hlo, hhi⟩ := Set.mem_iUnion₂.1 hhole
  rw [page2MSize_eq] at hhi
  rcases List.mem_cons.1 hp with rfl | hp
  · omega
  · rw [List.mem_singleton.1 hp] at hlo
    omega

/-- Freeing the first block instead leaves the hole guarded. -/
theorem blocks_inside_pages_holeMap : ∃ u,
    u.live = [(0xffff800004000018, maxAllowed)] ∧
    ∃ blocks, Linked u.state.mem u.state.mallocHead blocks 0 ∧
      (∀ b ∈ blocks, b.extent ⊆ region pageRegion u.state.taken) ∧
      ∀ p u', HeapStep u (.free p) u' → GuardedCall u (.free p) →
        ∃ blocks', Linked u'.state.mem u'.state.mallocHead blocks' 0 ∧
          (blocks' = blocks ∨ Relation.ReflTransGen TouchingMerge (mark p blocks) blocks') := by
  have hmap : SoundMap holeMap := by
    refine ⟨?_, ?_⟩
    · have hframes : (usableFrames holeMap).map phyToVirt =
          [0xffff800000200000, 0xffff800004000000] := by decide +kernel
      rw [hframes]
      exact pagesValid_of_apart (by decide) (by decide)
    · have hroom : findRoom (pageCount holeMap) holeMap = some ⟨0x180000, 0x280000, 1⟩ := by
        decide +kernel
      have hcount : pageCount holeMap = 2 := by decide +kernel
      have hframes : usableFrames holeMap = [0x200000, 0x4000000] := by decide +kernel
      rw [hroom, hframes]
      intro room hmem j hj
      obtain rfl := Option.mem_some_iff.1 hmem
      refine Set.disjoint_left.2 fun x hx hx' ↦ ?_
      have hhi : x < 0x180000 + pageCount holeMap * sizeofPage := hx.2
      have hlo := hx'.1
      rw [hcount, sizeofPage] at hhi
      simp only [List.mem_cons, List.not_mem_nil, or_false] at hj
      omega
  obtain ⟨u, hrun, hlive, h, hu, -, hblocks, -, -⟩ := holeMap_taken
  obtain ⟨s', hstep, -⟩ := hu.exists_free (p := 0xffff800000200018) (by simp [hlive])
  have hguard : GuardedCall u (.free 0xffff800000200018) := by
    intro _ blocks hlinked
    rw [hlinked.unique hu.represents.blocks, hblocks]
    decide
  refine ⟨_, ?_, blocks_inside_pages uninitialised_zeroed hmap (hrun.snoc ⟨hguard, hstep⟩)⟩
  simp [hlive]

end LightNight
